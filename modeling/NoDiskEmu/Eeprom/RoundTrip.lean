import NoDiskEmu.Eeprom.Read

/-! What is written to new files, through any number of handles at a time, is read back. -/

namespace NoDiskEmu.Eeprom

open Library Library.Run

variable {c : Config} {g g' g₀ : Places} {m₀ : Machine}

/-- A call that writes a new file. -/
inductive FileCall where
  | open (h : ℕ) (name : Name)
  | write (h : ℕ) (data : List UInt8)
  | close (h : ℕ)

/-- A machine with a record of what the callers know: for each handle that they have open for
writing, the name and the bytes reported as written, and the same for each file they have closed. -/
structure Session where
  machine : Machine
  writing : ℕ → Option (Name × List UInt8)
  written : List (Name × List UInt8)

namespace Session

/-- A session that starts at a machine, with no file of its own. -/
def start (m : Machine) : Session := ⟨m, fun _ => none, []⟩

def step (c : Config) (t : Session) : FileCall → Reply × Session
  | .open h name =>
    let r := t.machine.step c (.open h name .write)
    (r.1, { t with
      machine := r.2
      writing := Function.update t.writing h (if r.1.status = .ok then some (name, []) else none) })
  | .write h data =>
    let r := t.machine.step c (.write h data)
    (r.1, { t with
      machine := r.2
      writing := Function.update t.writing h
        ((t.writing h).map fun f => (f.1, f.2 ++ data.take r.1.written)) })
  | .close h =>
    let r := t.machine.step c (.close h)
    (r.1, ⟨r.2, Function.update t.writing h none, (t.writing h).toList ++ t.written⟩)

/-- The callers open a handle before they use it, and close it after its first write that fails. -/
def Fair (t : Session) : FileCall → Prop
  | .open h _ => t.writing h = none
  | .write h _ => t.writing h ≠ none ∧ t.machine.failed h = false
  | .close h => t.writing h ≠ none

/-- What the handle `h` and its file hold while the file is written. -/
structure Writing (c : Config) (m : Machine) (g : Places) (h : ℕ) (name : Name)
    (bytes : List UInt8) : Prop where
  mode : (m.handle h).filemode = .write
  file : m.fs.IsFile c (m.handle h).entry name
  size : (m.handle h).size = bytes.length
  content : m.fs.Content c g (m.handle h).entry bytes

/-- A file that no handle of the session writes to. -/
def Settled (c : Config) (t : Session) (g : Places) (r : ℕ) (name : Name) (bytes : List UInt8) : Prop :=
  t.machine.fs.Stored c g r name bytes ∧ ∀ h, t.writing h ≠ none → (t.machine.handle h).entry ≠ r

/-- The state of a session that started at `m₀`. -/
structure Kept (c : Config) (m₀ : Machine) (g₀ : Places) (t : Session) (g : Places) : Prop where
  sound : t.machine.Sound c g
  writing : ∀ h name bytes, t.writing h = some (name, bytes) → Writing c t.machine g h name bytes
  written : ∀ name bytes, (name, bytes) ∈ t.written → ∃ r, t.Settled c g r name bytes
  old : ∀ r name bytes, m₀.fs.Stored c g₀ r name bytes → t.Settled c g r name bytes
  entries : ∀ i, (m₀.fs.table c).Live i →
    (t.machine.fs.table c).dir i = (m₀.fs.table c).dir i ∧
      ∀ h, t.writing h ≠ none → (t.machine.handle h).entry ≠ g.own i

variable {t t' : Session}

/-- A step keeps the settled files if it keeps every file to which no handle of the session writes,
and the entries of before if it keeps all entries of such files. -/
theorem Kept.of_settled (ht : t.Kept c m₀ g₀ g) (hsound : t'.machine.Sound c g')
    (hwriting : ∀ h name bytes, t'.writing h = some (name, bytes) →
      Writing c t'.machine g' h name bytes)
    (hsettled : ∀ r name bytes, t.Settled c g r name bytes → t'.Settled c g' r name bytes)
    (hwritten : ∀ name bytes, (name, bytes) ∈ t'.written → (name, bytes) ∉ t.written →
      ∃ r, t'.Settled c g' r name bytes)
    (hentries : ∀ i, (t.machine.fs.table c).Live i →
      (∀ h, t.writing h ≠ none → (t.machine.handle h).entry ≠ g.own i) →
      (t'.machine.fs.table c).dir i = (t.machine.fs.table c).dir i ∧
        ∀ h, t'.writing h ≠ none → (t'.machine.handle h).entry ≠ g'.own i) :
    t'.Kept c m₀ g₀ g' := by
  refine ⟨hsound, hwriting, fun name bytes hmem => ?_, fun r name bytes h => ?_, fun i hi => ?_⟩
  · by_cases hold : (name, bytes) ∈ t.written
    · obtain ⟨r, hr⟩ := ht.written name bytes hold
      exact ⟨r, hsettled r name bytes hr⟩
    · exact hwritten name bytes hmem hold
  · exact hsettled r name bytes (ht.old r name bytes h)
  · obtain ⟨hdir, hown⟩ := ht.entries i hi
    have hlive : (t.machine.fs.table c).Live i := by
      rw [Table.Live, hdir]
      exact hi
    obtain ⟨hdir', hown'⟩ := hentries i hlive hown
    exact ⟨hdir'.trans hdir, hown'⟩

/-- An entry that keeps its directory entry keeps its file. -/
theorem stored_of_dir {s s' : Eefs} {r : ℕ} {name : Name} {bytes : List UInt8}
    (h : s.Stored c g r name bytes) (hdir : (s'.table c).dir r = (s.table c).dir r)
    (hcontent : s'.Content c g' r bytes) : s'.Stored c g' r name bytes := by
  obtain ⟨hlive, hlist, hname⟩ := Eefs.isFile_table.mp h.file
  refine ⟨Eefs.isFile_table.mpr ?_, ?_, hcontent⟩
  · rw [Table.Live, hdir]
    exact ⟨hlive, hlist, hname⟩
  · rw [hdir]
    exact h.size

/-- The handles of the session that are still in use after a call on handle `h`. -/
theorem others_apart {m : Machine} {h e : ℕ} {fh : Handle} {failed : Bool} {fs : Eefs}
    {writing : ℕ → Option (Name × List UInt8)} {w : Option (Name × List UInt8)}
    (hself : w ≠ none → fh.entry ≠ e)
    (hothers : ∀ k, k ≠ h → writing k ≠ none → (m.handle k).entry ≠ e) :
    ∀ k, Function.update writing h w k ≠ none → ((m.set h fh failed fs).handle k).entry ≠ e := by
  intro k hk
  by_cases heq : k = h
  · subst heq
    rw [Function.update_self] at hk
    rw [Machine.handle_set_self]
    exact hself hk
  · rw [Function.update_of_ne heq] at hk
    rw [Machine.handle_set_ne heq]
    exact hothers k heq hk

/-- The files that are written through other handles than `h`. -/
theorem writing_set {m : Machine} {h : ℕ} {fh : Handle} {failed : Bool} {fs : Eefs}
    {writing : ℕ → Option (Name × List UInt8)} {w : Option (Name × List UInt8)}
    (hself : ∀ name bytes, w = some (name, bytes) → fh.filemode = .write ∧ fs.IsFile c fh.entry name ∧
      fh.size = bytes.length ∧ fs.Content c g' fh.entry bytes)
    (hothers : ∀ k name bytes, k ≠ h → writing k = some (name, bytes) →
      Writing c m g k name bytes ∧ fs.IsFile c (m.handle k).entry name ∧
        fs.Content c g' (m.handle k).entry bytes) :
    ∀ k name bytes, Function.update writing h w k = some (name, bytes) →
      Writing c (m.set h fh failed fs) g' k name bytes := by
  intro k name bytes hk
  by_cases heq : k = h
  · subst heq
    rw [Function.update_self] at hk
    obtain ⟨hmode, hfile, hsize, hcontent⟩ := hself name bytes hk
    refine ⟨?_, ?_, ?_, ?_⟩ <;> rwa [Machine.handle_set_self]
  · rw [Function.update_of_ne heq] at hk
    obtain ⟨⟨hmode, -, hsize, -⟩, hfile, hcontent⟩ := hothers k name bytes heq hk
    refine ⟨?_, ?_, ?_, ?_⟩ <;> rwa [Machine.handle_set_ne heq]

theorem Kept.open (ht : t.Kept c m₀ g₀ g) (h : ℕ) (name : Name) :
    ∃ g', (t.step c (.open h name)).2.Kept c m₀ g₀ g' := by
  obtain ⟨g', hsound, hgrows, hdata, hdir, -, -, hok⟩ := ht.sound.openWrite h name
  set r := t.machine.fs.eepromfsOpen c name .write
  have hlinks := ht.sound.table.links
  -- a new file has an entry that no file had
  have hnew : (if r.1 = .ok then some (name, ([] : List UInt8)) else none) ≠ none →
      (t.machine.fs.table c).usedEntry r.2.1.entry = false := by
    intro hw
    by_cases hst : r.1 = .ok
    · exact (hok hst).2.2.2
    · rw [if_neg hst] at hw
      exact absurd rfl hw
  refine ⟨g', ht.of_settled hsound (writing_set (g := g) ?_ ?_) ?_ ?_ ?_⟩
  · intro nm bytes hw
    change (if r.1 = .ok then some (name, ([] : List UInt8)) else none) = some (nm, bytes) at hw
    by_cases hst : r.1 = .ok
    · rw [if_pos hst] at hw
      cases hw
      obtain ⟨hfile, hsize, hmode, -⟩ := hok hst
      exact ⟨hmode, hfile, hsize, fun k hk => absurd hk (by simp)⟩
    · rw [if_neg hst] at hw
      cases hw
  · intro k nm bytes _ hk
    have hw := ht.writing k nm bytes hk
    obtain ⟨hlive, hlist, hname⟩ := Eefs.isFile_table.mp hw.file
    refine ⟨hw, Eefs.isFile_table.mpr ?_, hw.content.grow hgrows hdata⟩
    rw [Table.Live, hdir _ hw.file.1]
    exact ⟨hlive, hlist, hname⟩
  · intro i nm bytes hs
    have hlive := Eefs.live_table.mpr hs.1.file.1
    refine ⟨stored_of_dir hs.1 (hdir i hs.1.file.1) (hs.1.content.grow hgrows hdata),
      others_apart (fun hw heq => ?_) fun k _ hk => hs.2 k hk⟩
    have hused := hlinks.used i hlive
    rw [← heq, hnew hw] at hused
    cases hused
  · intro nm bytes hmem hnot
    exact absurd hmem hnot
  · intro i hi hown
    refine ⟨hdir i (Eefs.live_table.mp hi), ?_⟩
    rw [(hgrows.places i hi).1]
    refine others_apart (fun hw heq => ?_) fun k _ hk => hown k hk
    have hused := hlinks.owner i hi
    rw [← heq, hnew hw] at hused
    cases hused

/-- Two handles of the session write to different files. -/
theorem Kept.apart (ht : t.Kept c m₀ g₀ g) {h k : ℕ} (hh : t.writing h ≠ none)
    (hk : t.writing k ≠ none) (hne : k ≠ h) :
    (t.machine.handle k).entry ≠ (t.machine.handle h).entry := by
  have hmode : ∀ j, t.writing j ≠ none → (t.machine.handle j).filemode ≠ .read := by
    intro j hj
    obtain ⟨⟨name, bytes⟩, heq⟩ := Option.ne_none_iff_exists'.mp hj
    rw [(ht.writing j name bytes heq).mode]
    simp
  exact ht.sound.apart k h (hmode k hk) (hmode h hh) hne

theorem Kept.write (ht : t.Kept c m₀ g₀ g) {h : ℕ} (hh : t.writing h ≠ none)
    (hfailed : t.machine.failed h = false) (data : List UInt8) :
    ∃ g', (t.step c (.write h data)).2.Kept c m₀ g₀ g' := by
  obtain ⟨⟨name, bytes⟩, hopen⟩ := Option.ne_none_iff_exists'.mp hh
  have hw := ht.writing h name bytes hopen
  obtain ⟨g', w, hsound, hreport, hwritten, -⟩ := ht.sound.write_ok hw.mode hfailed data
  have hprog := hwritten.progress
  have hlinks := ht.sound.table.links
  obtain ⟨hlive, hlist, hname⟩ := Eefs.isFile_table.mp hw.file
  have hfilled := hwritten.filled hlive
  have hsmall : w % 65536 = w := by
    have hlt := hprog.writer.size_lt
    rw [hfilled.size] at hlt
    omega
  rw [hsmall] at hreport
  -- a file with another first entry keeps its entries
  have hsame : ∀ i, (t.machine.fs.table c).Live i → g.own i ≠ (t.machine.handle h).entry →
      ((t.machine.fs.eepromfsWrite c (t.machine.handle h) data).2.2.2.table c).dir i =
        (t.machine.fs.table c).dir i :=
    fun i hi hown => hprog.frame.same i (hlinks.used i hi) hown
  have hroot : ∀ i nm, t.machine.fs.IsFile c i nm → (t.machine.fs.table c).Live i ∧ g.own i = i := by
    intro i nm hfile
    obtain ⟨hi, hil, -⟩ := Eefs.isFile_table.mp hfile
    exact ⟨hi, (hlinks.root i hi hil).1⟩
  refine ⟨g', ht.of_settled hsound (writing_set (g := g) ?_ ?_) ?_ ?_ ?_⟩
  · intro nm bs hbs
    rw [hopen] at hbs
    cases hbs
    obtain ⟨hlist', hname', -⟩ := hprog.files _ hlive hlist
    refine ⟨hprog.filemode.trans hw.mode, ?_, ?_, ?_⟩
    · rw [hprog.entry]
      exact Eefs.isFile_table.mpr ⟨hprog.live _ hlive, hlist', hname'.trans hname⟩
    · have hle := hwritten.le
      show _ = (bytes ++ data.take (t.machine.fs.eepromfsWrite c (t.machine.handle h) data).2.1).length
      rw [hreport, hfilled.size, hw.size, List.length_append, List.length_take, Nat.min_eq_left hle]
    · rw [hprog.entry]
      show Eefs.Content c _ g' _
        (bytes ++ data.take (t.machine.fs.eepromfsWrite c (t.machine.handle h) data).2.1)
      rw [hreport]
      exact hfilled.own bytes hw.size.symm hw.content
  · intro k nm bs hk hbs
    have hwk := ht.writing k nm bs hbs
    have hne := ht.apart hh (hbs ▸ Option.some_ne_none _) hk
    obtain ⟨hkl, hkown⟩ := hroot _ _ hwk.file
    obtain ⟨-, hkl', hkn⟩ := Eefs.isFile_table.mp hwk.file
    refine ⟨hwk, Eefs.isFile_table.mpr ?_, hfilled.others _ bs hne hwk.content⟩
    rw [Table.Live, hsame _ hkl (hkown.symm ▸ hne)]
    exact ⟨hkl, hkl', hkn⟩
  · intro i nm bs hs
    obtain ⟨hi, hown⟩ := hroot _ _ hs.1.file
    have hne := (hs.2 h hh).symm
    refine ⟨stored_of_dir hs.1 (hsame i hi (hown.symm ▸ hne)) (hfilled.others i bs hne hs.1.content),
      others_apart (fun _ => ?_) fun k _ hk => hs.2 k hk⟩
    rw [hprog.entry]
    exact hne.symm
  · intro nm bs hmem hnot
    exact absurd hmem hnot
  · intro i hi hown
    refine ⟨hsame i hi (hown h hh).symm, ?_⟩
    rw [(hprog.frame.used i (hlinks.used i hi)).2.1]
    refine others_apart (fun _ => ?_) fun k _ hk => hown k hk
    rw [hprog.entry]
    exact hown h hh

theorem Kept.close (ht : t.Kept c m₀ g₀ g) {h : ℕ} (hh : t.writing h ≠ none) :
    (t.step c (.close h)).2.Kept c m₀ g₀ g := by
  obtain ⟨⟨name, bytes⟩, hopen⟩ := Option.ne_none_iff_exists'.mp hh
  have hw := ht.writing h name bytes hopen
  have hmode : (t.machine.handle h).filemode ≠ .read := by simp [hw.mode]
  obtain ⟨hsound, hgrows, hdata, htable⟩ := ht.sound.close_write hmode
  obtain ⟨hlive, hlist, hname⟩ := Eefs.isFile_table.mp hw.file
  have hlinks := ht.sound.table.links
  have hown := (hlinks.root _ hlive hlist).1
  have hsame : ∀ i, i ≠ (t.machine.handle h).entry →
      ((t.machine.fs.eepromfsClose c (t.machine.handle h)).2.table c).dir i =
        (t.machine.fs.table c).dir i := by
    intro i hi
    rw [htable, Table.dir_set_ne hi]
  have hself : ((t.machine.fs.eepromfsClose c (t.machine.handle h)).2.table c).dir
      (t.machine.handle h).entry =
        ((t.machine.fs.table c).dir (t.machine.handle h).entry).setSize (t.machine.handle h).size := by
    rw [htable, Table.dir_set_self]
  refine ht.of_settled hsound (writing_set (g := g) ?_ ?_) ?_ ?_ ?_
  · intro nm bs hbs
    cases hbs
  · intro k nm bs hk hbs
    have hwk := ht.writing k nm bs hbs
    obtain ⟨hkl, hklist, hkn⟩ := Eefs.isFile_table.mp hwk.file
    refine ⟨hwk, Eefs.isFile_table.mpr ?_, hwk.content.grow hgrows hdata⟩
    rw [Table.Live, hsame _ (ht.apart hh (hbs ▸ Option.some_ne_none _) hk)]
    exact ⟨hkl, hklist, hkn⟩
  · intro i nm bs hs
    exact ⟨stored_of_dir hs.1 (hsame i (hs.2 h hh).symm) (hs.1.content.grow hgrows hdata),
      others_apart (fun hw => absurd rfl hw) fun k _ hk => hs.2 k hk⟩
  · -- the file that is closed
    intro nm bs hmem hnot
    have heq : (nm, bs) = (name, bytes) := by
      change (nm, bs) ∈ (t.writing h).toList ++ t.written at hmem
      rw [hopen, List.mem_append] at hmem
      rcases hmem with hnew | hold
      · simpa using hnew
      · exact absurd hold hnot
    obtain ⟨rfl, rfl⟩ := Prod.mk.inj heq
    refine ⟨(t.machine.handle h).entry, ⟨Eefs.isFile_table.mpr ?_, ?_, hw.content.grow hgrows hdata⟩,
      others_apart (fun hw => absurd rfl hw) fun k hk hkw => ht.apart hh hkw hk⟩
    · show Table.Live ((t.machine.fs.eepromfsClose c (t.machine.handle h)).2.table c) _ ∧ _ ∧ _
      rw [Table.Live]
      refine ⟨?_, ?_, ?_⟩
      · rw [hself, Entry.deleted_setSize]
        exact hlive
      · exact (congrArg Entry.isListentry hself).trans (Entry.isListentry_setSize.trans hlist)
      · exact (congrArg Entry.name hself).trans (Entry.name_setSize.trans hname)
    · exact (congrArg Entry.size hself).trans
        ((Entry.size_setSize (ht.sound.writer h hmode).size_lt).trans hw.size)
  · intro i hi hi'
    refine ⟨hsame i ?_, others_apart (fun hw => absurd rfl hw) fun k _ hk => hi' k hk⟩
    rintro rfl
    exact hi' h hh hown.symm

theorem Kept.step (ht : t.Kept c m₀ g₀ g) (a : FileCall) (ha : t.Fair a) :
    ∃ g', (t.step c a).2.Kept c m₀ g₀ g' := by
  cases a with
  | «open» h name => exact ht.open h name
  | write h data => exact ht.write ha.1 ha.2 data
  | close h => exact ⟨g, ht.close ha⟩

theorem kept_start {m : Machine} (hm : m.Sound c g) : (start m).Kept c m g g :=
  ⟨hm, fun _ _ _ h => absurd h (by simp [start]), fun _ _ h => absurd h (by simp [start]),
    fun _ _ _ h => ⟨h, fun _ hk => absurd rfl hk⟩, fun _ _ => ⟨rfl, fun _ hk => absurd rfl hk⟩⟩

/-- What the callers find when all files they wrote are closed: their bytes, the files of before with
their entries, and no sector in two places. -/
structure ReadsBack (c : Config) (m₀ : Machine) (t : Session) : Prop where
  written : ∀ name bytes, (name, bytes) ∈ t.written → t.machine.Delivers c name bytes
  old : ∀ i name, m₀.fs.IsFile c i name →
    ∃ bytes, m₀.Delivers c name bytes ∧ t.machine.Delivers c name bytes
  entries : ∀ i, m₀.fs.Live c i → t.machine.fs.entry c i = m₀.fs.entry c i
  sectors : ∀ i j i' j' x, (t.machine.fs.table c).Listed i j x →
    (t.machine.fs.table c).Listed i' j' x → i = i' ∧ j = j'
  faults : t.machine.fs.markFault = false ∧ t.machine.fs.hung = false

theorem Kept.readsBack (ht : t.Kept c m₀ g₀ g) (hm : m₀.Sound c g₀) : t.ReadsBack c m₀ := by
  refine ⟨fun name bytes hmem => ?_, fun i name hfile => ?_, fun i hi => ?_,
    ht.sound.table.listing.distinct, ht.sound.markFault, ht.sound.hung⟩
  · obtain ⟨r, hr⟩ := ht.written name bytes hmem
    exact Machine.delivers_of_stored ht.sound.table hr.1
  · obtain ⟨bytes, hstored⟩ := exists_stored hm.table hfile
    exact ⟨bytes, Machine.delivers_of_stored hm.table hstored,
      Machine.delivers_of_stored ht.sound.table (ht.old i name bytes hstored).1⟩
  · have hdir := (ht.entries i (Eefs.live_table.mpr hi)).1
    rwa [Eefs.dir_table hi.1, Eefs.dir_table hi.1] at hdir

end Session

/-- From every state that a run reaches: new files written in any interleaving and closed are read
back as written. -/
theorem Session.readsBack_run (c : Config) (s : Eefs) (calls : List Call) (fileCalls : List FileCall)
    (hcalls : Meets (Machine.step c) Machine.Plain (Machine.formatted c s) calls)
    (hfair : Meets (step c) Fair (start (run (Machine.step c) (Machine.formatted c s) calls).2)
      fileCalls) :
    (run (step c) (start (run (Machine.step c) (Machine.formatted c s) calls).2)
      fileCalls).2.ReadsBack c (run (Machine.step c) (Machine.formatted c s) calls).2 := by
  obtain ⟨g, hm⟩ := Machine.sound_run c s hcalls
  have halways := always_of_step
    (I := fun t => ∃ g', t.Kept c (run (Machine.step c) (Machine.formatted c s) calls).2 g g')
    (fun t a ⟨g', ht⟩ ha => ht.step a ha) ⟨g, kept_start hm⟩ hfair
  obtain ⟨g', ht⟩ := halways.last
  exact ht.readsBack hm

/-- A formatted EEPROM on which a file has been written. -/
def oneFile : Machine :=
  (run (Machine.step Config.avr) (Machine.formatted Config.avr
    ⟨fun _ => 255, fun _ => 0, fun _ => 0, 0, fun _ => 0, false, false, false⟩)
    [.open 2 (fun _ => 67) .write, .write 2 [9, 8, 7], .close 2]).2

/-- Two files that are written in turns. -/
def twoFiles : List FileCall :=
  [.open 0 fun _ => 65, .write 0 [1, 2, 3], .open 1 fun _ => 66, .write 1 [4, 5, 6, 7], .write 0 [8, 9],
    .close 1, .write 0 [10], .close 0]

set_option maxRecDepth 20000 in
theorem Session.fair_twoFiles : Meets (step Config.avr) Fair (start oneFile) twoFiles := by
  have hopen : ∀ {t : Session} {h : ℕ}, (t.writing h).isSome = true → t.writing h ≠ none :=
    fun h => Option.isSome_iff_ne_none.mp h
  refine ⟨rfl, ⟨hopen ?_, ?_⟩, rfl, ⟨hopen ?_, ?_⟩, ⟨hopen ?_, ?_⟩, hopen ?_, ⟨hopen ?_, ?_⟩, hopen ?_,
    trivial⟩
  all_goals decide +kernel

set_option maxRecDepth 20000 in
/-- Two files written in turns, on an EEPROM that already has one. -/
theorem Session.readsBack_twoFiles :
    (run (step Config.avr) (start oneFile) twoFiles).2.written.map (fun f => f.2) =
        [[1, 2, 3, 8, 9, 10], [4, 5, 6, 7]] ∧
      (run (step Config.avr) (start oneFile) twoFiles).2.ReadsBack Config.avr oneFile :=
  ⟨by decide +kernel,
    readsBack_run _ _ _ _ ⟨by simp [Machine.Plain], rfl, trivial, trivial⟩ fair_twoFiles⟩

end NoDiskEmu.Eeprom
