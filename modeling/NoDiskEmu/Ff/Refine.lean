import NoDiskEmu.Ff.Session

/-! The files of a session are arrays of bytes. What lies in the clusters behind the end of a file is chosen
afterwards, when the file has grown over it. -/

namespace NoDiskEmu.Ff

open Library Library.Chain Library.WriteBack Fat

/-- A file, and how it is open. -/
structure Handle where
  file : File
  isOpen : Bool
  read : Bool
  write : Bool

instance : Inhabited Handle := ⟨⟨⟨fun _ => 0, 0, 0⟩, false, false, false⟩⟩

namespace Handle

/-- Why a call is refused. -/
def refusal (a : Handle) : Op → Option FResult
  | .opens _ _ => none
  | .read _ => if a.isOpen = false then some .invalidObject else if a.read = false then some .denied else none
  | .write _ => if a.isOpen = false then some .invalidObject else if a.write = false then some .denied else none
  | .seek _ | .sync _ | .close _ => if a.isOpen = false then some .invalidObject else none

/-- A file that is only read is never positioned behind its end. -/
def target (a : Handle) (ofs : ℕ) : ℕ := if a.file.size < ofs ∧ a.write = false then a.file.size else ofs

/-- A call that is not refused. A write and a seek may stop short on a volume without a free cluster, and nothing
is written to a file that would get 4 GB long. -/
def Does (full : Prop) (a a' : Handle) : Op → Reply → Prop
  | .opens r w, y => y = ⟨.ok, [], 0⟩ ∧ a' = ⟨{ a.file with pointer := 0 }, true, r, w⟩
  | .read btr, y =>
    y = ⟨.ok, (List.range (a.file.available btr)).map fun i => a.file.bytes (a.file.pointer + i), 0⟩ ∧
      a' = { a with file := a.file.read btr }
  | .write wbuff, y =>
    ∃ n ≤ wbuff.length, (n = wbuff.length ∨ full ∨ 2 ^ 32 ≤ a.file.size + wbuff.length) ∧ y = ⟨.ok, [], n⟩ ∧
      a' = { a with file := a.file.write n fun i => wbuff.getD i 0 }
  | .seek ofs, y =>
    ∃ p, (p = a.target ofs ∨ p < a.target ofs ∧ full) ∧ y = ⟨.ok, [], 0⟩ ∧ a' = { a with file := a.file.seek p }
  | .sync _, y => y = ⟨.ok, [], 0⟩ ∧ a' = a
  | .close _, y => y = ⟨.ok, [], 0⟩ ∧ a' = { a with file := { a.file with pointer := 0 }, isOpen := false }

theorem eq_of {a a' : Handle} (hbytes : a.file.bytes = a'.file.bytes) (hsize : a.file.size = a'.file.size)
    (hptr : a.file.pointer = a'.file.pointer) (hopen : a.isOpen = a'.isOpen) (hread : a.read = a'.read)
    (hwrite : a.write = a'.write) : a = a' := by
  obtain ⟨⟨_, _, _⟩, _, _, _⟩ := a
  obtain ⟨⟨_, _, _⟩, _, _, _⟩ := a'
  cases hbytes
  cases hsize
  cases hptr
  cases hopen
  cases hread
  cases hwrite
  rfl

def Step (full : Prop) (a a' : Handle) (o : Op) (y : Reply) : Prop :=
  match a.refusal o with
  | some r => y = ⟨r, [], 0⟩ ∧ a' = a
  | none => a.Does full a' o y

theorem refusal_mem {a : Handle} {o : Op} {r : FResult} (h : a.refusal o = some r) : r = .invalidObject ∨ r = .denied := by
  cases o
  case opens => cases h
  all_goals
    rw [refusal] at h
    split_ifs at h
    all_goals grind

theorem Step.not_failed {full : Prop} {a a' : Handle} {o : Op} {y : Reply} (h : a.Step full a' o y) :
    ¬Failed y.result := by
  rw [Step] at h
  cases hr : a.refusal o with
  | some r =>
    rw [hr] at h
    obtain ⟨rfl, -⟩ := h
    rintro (hf | hf) <;> obtain rfl | rfl := refusal_mem hr <;> cases hf
  | none =>
    rw [hr] at h
    have hok : y.result = .ok := by
      cases o with
      | write wbuff =>
        obtain ⟨_, -, -, rfl, -⟩ := h
        rfl
      | seek ofs =>
        obtain ⟨_, -, rfl, -⟩ := h
        rfl
      | _ =>
        obtain ⟨rfl, -⟩ := h
        rfl
    rw [hok]
    rintro (hf | hf) <;> cases hf

end Handle

namespace Session

variable {ι : Type*}

/-- The file `a` is file `i` of the session. -/
structure Shows (L : Layout ι) (chains : ι → List ℕ) (w : Session ι) (i : ι) (a : Handle) : Prop where
  size : a.file.size = (w.record L i).fsize
  pointer : a.file.pointer = (w.record L i).fptr
  bytes : ∀ o < 512 * ((chains i).length * (L.vol (L.home i)).csize),
    w.disk.byte L.vol (L.home i) (chains i) o = a.file.bytes o
  isOpen : a.isOpen = (w.fil i).fs.isSome
  read : a.read = (w.fil i).read
  write : a.write = (w.fil i).write

/-- The file before a call that has left `a'` behind. -/
def before (L : Layout ι) (chains : ι → List ℕ) (w : Session ι) (i : ι) (a' : Handle) : Handle where
  file :=
    { bytes := fun o => if o < 512 * ((chains i).length * (L.vol (L.home i)).csize)
        then w.disk.byte L.vol (L.home i) (chains i) o else a'.file.bytes o
      size := (w.record L i).fsize
      pointer := (w.record L i).fptr }
  isOpen := (w.fil i).fs.isSome
  read := (w.fil i).read
  write := (w.fil i).write

variable {L : Layout ι} {chains : ι → List ℕ} {w : Session ι} {s' : Disk} {fp' : Fil} {i j : ι} {cs' : List ℕ}
  {a a' : Handle}

theorem before_shows (a' : Handle) : Shows L chains w i (before L chains w i a') :=
  ⟨rfl, rfl, fun _ ho => (if_pos ho).symm, rfl, rfl, rfl⟩

theorem byte_eq_view {vol : ℕ → Volume} {fs : ℕ} {cs : List ℕ} {s s' : Disk} {o : ℕ}
    (ho : o < 512 * (cs.length * (vol fs).csize))
    (h : ∀ c ∈ cs, ∀ q < (vol fs).csize, s'.buf.view (fs, (vol fs).clust2sect c + q) =
      s.buf.view (fs, (vol fs).clust2sect c + q)) : s'.byte vol fs cs o = s.byte vol fs cs o := by
  obtain ⟨k, c, q, hk, hq, heq⟩ := exists_sector (v := vol fs) (Nat.div_lt_of_lt_mul ho)
  rw [Disk.byte, Disk.byte, heq, sector_eq hk hq, h c (List.mem_of_getElem? hk) q hq]

/-- The bytes of a file after a write. -/
theorem bytes_after (heffect : Effect L.vol (L.home i) (chains i) w.disk cs' s') {start n : ℕ}
    {wbuff : List UInt8} (hw : Fil.Wrote L.vol (L.home i) (chains i) cs' start n wbuff w.disk s')
    (hroom : start + n ≤ 512 * (cs'.length * (L.vol (L.home i)).csize))
    (ha : ∀ o < 512 * (cs'.length * (L.vol (L.home i)).csize), s'.byte L.vol (L.home i) cs' o = a'.file.bytes o) :
    Memory.write (before L chains w i a').file.bytes start n (fun i => wbuff.getD i 0) = a'.file.bytes := by
  have hlen := Nat.mul_le_mul_right (L.vol (L.home i)).csize heffect.isPrefix.length_le
  funext o
  rw [Memory.write]
  by_cases hin : start ≤ o ∧ o < start + n
  · rw [if_pos hin, ← ha o (by omega), hw o (.inr hin), if_pos hin]
  · rw [if_neg hin]
    by_cases hold : o < 512 * ((chains i).length * (L.vol (L.home i)).csize)
    · rw [← ha o (by omega), hw o (.inl hold), if_neg hin]
      exact if_pos hold
    · exact if_neg hold

/-- The bytes of a file that a call does not change. -/
theorem bytes_kept (hchain : IsChain (w.disk.link L.vol) (cells (L.home i) (chains i)))
    (heffect : Effect L.vol (L.home i) (chains i) w.disk cs' s')
    (hkeep : Fil.KeepsData L.vol w.disk s')
    (ha : ∀ o < 512 * (cs'.length * (L.vol (L.home i)).csize), s'.byte L.vol (L.home i) cs' o = a'.file.bytes o) :
    (before L chains w i a').file.bytes = a'.file.bytes := by
  have hw := bytes_after heffect (hkeep.wrote 0 [] hchain heffect.isPrefix) (Nat.zero_le _) ha
  rw [← hw]
  funext o
  rw [Memory.write, if_neg (by omega)]

/-- What a call of `f_sync` for an open file leaves. -/
structure Settled (L : Layout ι) (chains : ι → List ℕ) (w : Session ι) (i : ι) (s' : Disk) : Prop where
  sound : s'.Sound L.vol
  clean : (w.fil i).written = true → s'.buf.dirty = false
  link : s'.link L.vol = w.disk.link L.vol
  healthy : w.disk.Healthy L.vol → s'.Healthy L.vol
  counted : w.disk.Counted L.vol → s'.Counted L.vol
  others : ∀ j ≠ i, (w.fil j).load (s'.buf.view (L.home j, L.dirSect j)) (L.dirPtr j) =
    (w.fil j).load (w.disk.buf.view (L.home j, L.dirSect j)) (L.dirPtr j)
  entry : let fp := (w.fil i).load (s'.buf.view (L.home i, L.dirSect i)) (L.dirPtr i)
    fp.fsize = (w.fil i).fsize ∧ fp.orgClust = (w.fil i).orgClust
  bytes : ∀ j, ∀ o < 512 * ((chains j).length * (L.vol (L.home j)).csize),
    s'.byte L.vol (L.home j) (chains j) o = w.disk.byte L.vol (L.home j) (chains j) o

theorem Intact.fSync_settled (h : Intact L chains w) (hopen : (w.fil i).fs ≠ none) (tim : ℕ) :
    let r := (w.fil i).fSync L.vol w.disk tim
    (Failed r.1 ∧ ¬w.disk.Healthy L.vol) ∨
      (r.1 = .ok ∧ r.2.1 = { w.fil i with written := false } ∧ Settled L chains w i r.2.2) := by
  obtain ⟨hfs, -, hsect, hptr⟩ := h.handle i hopen
  have hopened := h.opened i
  rw [record_of_open hopen] at hopened
  have hdir : (L.vol (L.home i)).fatbase + (L.vol (L.home i)).nFats * (L.vol (L.home i)).sectsFat ≤ (w.fil i).dirSect := by
    rw [hsect]
    exact L.dirSect_data i
  obtain hfailed | ⟨hok, ⟨hwritten, hfil, hquiet⟩ | ⟨hwritten, hfil, hsaved⟩⟩ :=
    @Fil.fSync_spec L.vol (L.home i) w.disk (w.fil i) tim h.sound hfs hdir
  · exact .inl hfailed
  · have heffect : Effect L.vol (L.home i) (chains i) w.disk (chains i) _ := (Effect.refl h.sound).quiet hquiet
    have hview := h.view_entry heffect
    refine .inr ⟨hok, hfil.trans ?_, hquiet.sound, by simp [hwritten], hquiet.link, hquiet.healthy, hquiet.counted,
      fun j _ => by rw [hview], ?_, fun j o ho => ?_⟩
    · rw [← hwritten]
    · rw [hview]
      exact h.entry i hopen hwritten
    · exact hquiet.byte (h.chain j) ho
  · have hlink := hsaved.link hdir
    refine .inr ⟨hok, hfil, hsaved.sound, fun _ => hsaved.clean, hlink, hsaved.healthy, fun hc v => ?_, fun j hji => ?_, ?_,
      fun j o ho => ?_⟩
    · rw [hsaved.freeClust, hlink]
      exact hc v
    · refine Fil.load_congr fun k hk hlt => ?_
      rw [hsaved.view _ (Disk.primary_data (L.dirSect_data j))]
      by_cases hself : (L.home j, L.dirSect j) = (L.home i, (w.fil i).dirSect)
      · have hhome : L.home j = L.home i := congrArg Prod.fst hself
        have hslot : L.dirSect j = L.dirSect i := (congrArg Prod.snd hself).trans hsect
        have hapart := L.apart j i hji hhome hslot
        rw [hself, Function.update_self, Fil.entry_aside (by omega)]
      · rw [Function.update_of_ne hself]
    · rw [hsaved.view _ (Disk.primary_data (L.dirSect_data i)), hsect, Function.update_self, ← hptr,
        Fil.load_entry hopened.fsize_lt (h.orgClust_lt hopen)]
      exact ⟨rfl, rfl⟩
    · refine byte_eq_view ho fun c hc q hq => ?_
      rw [hsaved.view _ (Disk.primary_data (data_clust2sect (Disk.cluster_range (h.chain j) hc))), hsect,
        Function.update_of_ne (h.entry_away hc hq).symm]

variable [DecidableEq ι]

theorem Shows.self (h : Shows L (Function.update chains i cs') ⟨s', Function.update w.fil i fp'⟩ i a) :
    let fp := fp'.record (s'.buf.view (L.home i, L.dirSect i)) (L.dirPtr i)
    a.file.size = fp.fsize ∧ a.file.pointer = fp.fptr ∧
      (∀ o < 512 * (cs'.length * (L.vol (L.home i)).csize), s'.byte L.vol (L.home i) cs' o = a.file.bytes o) ∧
      a.isOpen = fp'.fs.isSome ∧ a.read = fp'.read ∧ a.write = fp'.write := by
  obtain ⟨hsize, hptr, hbytes, hopen, hread, hwrite⟩ := h
  rw [record] at hsize hptr
  dsimp only at hsize hptr hbytes hopen hread hwrite
  rw [Function.update_self] at hsize hptr hbytes hopen hread hwrite
  exact ⟨hsize, hptr, hbytes, hopen, hread, hwrite⟩

/-- A call for file `i` that has gone well: the other files stay as they are, and this one changes as an array
does. -/
structure Done (L : Layout ι) (chains : ι → List ℕ) (cs' : List ℕ) (w : Session ι) (i : ι) (o : Op) (y : Reply)
    (fp' : Fil) (s' : Disk) : Prop where
  intact : Intact L (Function.update chains i cs') ⟨s', Function.update w.fil i fp'⟩
  healthy : w.disk.Healthy L.vol → s'.Healthy L.vol
  counted : w.disk.Counted L.vol → s'.Counted L.vol
  isPrefix : chains i <+: cs'
  link : ∀ a ∉ cells (L.home i) cs', s'.link L.vol a = w.disk.link L.vol a
  others : ∀ j ≠ i, ∀ a, Shows L (Function.update chains i cs') ⟨s', Function.update w.fil i fp'⟩ j a →
    Shows L chains w j a
  back : ∀ a', Shows L (Function.update chains i cs') ⟨s', Function.update w.fil i fp'⟩ i a' →
    (before L chains w i a').Step (Fil.Full L.vol (L.home i) s') a' o y

def Outcome (L : Layout ι) (chains : ι → List ℕ) (w : Session ι) (i : ι) (o : Op) (y : Reply) (fp' : Fil) (s' : Disk) :
    Prop :=
  (Failed y.result ∧ ¬w.disk.Healthy L.vol) ∨ ∃ cs', Done L chains cs' w i o y fp' s'

theorem Shows.other (hji : j ≠ i)
    (hload : (w.fil j).load (s'.buf.view (L.home j, L.dirSect j)) (L.dirPtr j) =
      (w.fil j).load (w.disk.buf.view (L.home j, L.dirSect j)) (L.dirPtr j))
    (hbytes : ∀ o < 512 * ((chains j).length * (L.vol (L.home j)).csize),
      s'.byte L.vol (L.home j) (chains j) o = w.disk.byte L.vol (L.home j) (chains j) o)
    (h : Shows L (Function.update chains i cs') ⟨s', Function.update w.fil i fp'⟩ j a) : Shows L chains w j a := by
  obtain ⟨hsize, hptr, hb, hopen, hread, hwrite⟩ := h
  rw [Intact.record_of_ne hji hload] at hsize hptr
  dsimp only at hb hopen hread hwrite
  rw [Function.update_of_ne hji] at hb hopen hread hwrite
  exact ⟨hsize, hptr, fun o ho => (hbytes o ho).symm.trans (hb o ho), hopen, hread, hwrite⟩

namespace Intact

theorem other_bytes (h : Intact L chains w) (heffect : Effect L.vol (L.home i) (chains i) w.disk cs' s')
    (hji : j ≠ i) {o : ℕ} (ho : o < 512 * ((chains j).length * (L.vol (L.home j)).csize)) :
    s'.byte L.vol (L.home j) (chains j) o = w.disk.byte L.vol (L.home j) (chains j) o := by
  have hledger := heffect.ledger h.ledger rfl
  refine byte_eq_view ho fun c hc q hq => heffect.frame ?_ fun c' hc' q' hq' heq => ?_
  · exact data_clust2sect (Disk.cluster_range (h.chain j) hc)
  · have hhome : L.home j = L.home i := congrArg Prod.fst heq
    have hsect : (L.vol (L.home j)).clust2sect c + q = _ := congrArg Prod.snd heq
    have hrange := Disk.cluster_range (h.chain j) hc
    rw [hhome] at hsect hrange hq
    obtain ⟨rfl, -⟩ := clust2sect_inj hrange (Disk.cluster_range (heffect.chain (h.chain i)) hc') hq hq' hsect
    refine hledger.apart j i hji (a := (L.home i, c)) ?_ ?_
    · rw [Function.update_of_ne hji, hhome]
      exact List.mem_map_of_mem hc
    · rw [Function.update_self]
      exact List.mem_map_of_mem hc'

/-- A call for an open file. -/
theorem moved_outcome (h : Intact L chains w) (hopen : (w.fil i).fs ≠ none)
    (hm : Fil.Moved L.vol (L.home i) (chains i) cs' (w.fil i) fp' w.disk s') {o : Op} {y : Reply}
    (hstep : ∀ a', a'.file.size = fp'.fsize → a'.file.pointer = fp'.fptr →
      (∀ o < 512 * (cs'.length * (L.vol (L.home i)).csize), s'.byte L.vol (L.home i) cs' o = a'.file.bytes o) →
      a'.isOpen = true → a'.read = (w.fil i).read → a'.write = (w.fil i).write →
      (before L chains w i a').Step (Fil.Full L.vol (L.home i) s') a' o y) : Outcome L chains w i o y fp' s' := by
  have hfs : fp'.fs = (w.fil i).fs := by
    obtain ⟨_, _, _, _, _, _, _, heq⟩ := hm.kin
    rw [heq]
  have hmode : fp'.read = (w.fil i).read ∧ fp'.write = (w.fil i).write := by
    obtain ⟨_, _, _, _, _, _, _, heq⟩ := hm.kin
    rw [heq]
    exact ⟨rfl, rfl⟩
  refine .inr ⟨cs', h.moved hopen hm, hm.effect.healthy, hm.effect.counted (h.chain i), hm.effect.isPrefix,
    fun a ha => hm.effect.link_other (h.chain i) ha,
    fun j hji a ha => ha.other hji (by rw [h.view_entry hm.effect]) fun o ho => h.other_bytes hm.effect hji ho,
    fun a' ha => ?_⟩
  have hself := ha.self
  have hrecord : fp'.record (s'.buf.view (L.home i, L.dirSect i)) (L.dirPtr i) = fp' := if_neg (hfs ▸ hopen)
  rw [hrecord] at hself
  obtain ⟨hsize, hptr, hbytes, hisOpen, hread, hwrite⟩ := hself
  refine hstep a' hsize hptr hbytes (hisOpen.trans ?_) (hread.trans hmode.1) (hwrite.trans hmode.2)
  rw [hfs]
  exact Option.isSome_iff_ne_none.mpr hopen

/-- A call that changes no chain and no byte of a file. -/
theorem quiet_outcome (h' : Intact L chains ⟨s', Function.update w.fil i fp'⟩)
    (hhealthy : w.disk.Healthy L.vol → s'.Healthy L.vol) (hcounted : w.disk.Counted L.vol → s'.Counted L.vol)
    (hlink : s'.link L.vol = w.disk.link L.vol)
    (hloads : ∀ j ≠ i, (w.fil j).load (s'.buf.view (L.home j, L.dirSect j)) (L.dirPtr j) =
      (w.fil j).load (w.disk.buf.view (L.home j, L.dirSect j)) (L.dirPtr j))
    (hbytes : ∀ j, ∀ o < 512 * ((chains j).length * (L.vol (L.home j)).csize),
      s'.byte L.vol (L.home j) (chains j) o = w.disk.byte L.vol (L.home j) (chains j) o) {o : Op} {y : Reply}
    (hstep : ∀ a', (before L chains w i a').file.bytes = a'.file.bytes →
      a'.file.size = (fp'.record (s'.buf.view (L.home i, L.dirSect i)) (L.dirPtr i)).fsize →
      a'.file.pointer = (fp'.record (s'.buf.view (L.home i, L.dirSect i)) (L.dirPtr i)).fptr →
      a'.isOpen = fp'.fs.isSome → a'.read = fp'.read → a'.write = fp'.write →
      (before L chains w i a').Step (Fil.Full L.vol (L.home i) s') a' o y) : Outcome L chains w i o y fp' s' := by
  refine .inr ⟨chains i, by rwa [Function.update_eq_self], hhealthy, hcounted, List.prefix_rfl,
    fun a _ => congrFun hlink a, fun j hji a ha => ha.other hji (hloads j hji) (hbytes j), fun a' ha => ?_⟩
  obtain ⟨hsize, hptr, hown, hisOpen, hread, hwrite⟩ := ha.self
  refine hstep a' (funext fun k => ?_) hsize hptr hisOpen hread hwrite
  by_cases hk : k < 512 * ((chains i).length * (L.vol (L.home i)).csize)
  · rw [← hown k hk, hbytes i k hk]
    exact if_pos hk
  · exact if_neg hk

section Calls

variable (h : Intact L chains w)
include h

theorem read_outcome (hopen : (w.fil i).fs ≠ none) (hmode : (w.fil i).read = true) (btr : ℕ) :
    let r := Op.apply L i (w.fil i) w.disk (.read btr)
    Outcome L chains w i (.read btr) r.1 r.2.1 r.2.2 := by
  obtain ⟨hfs, herror, -, -⟩ := h.handle i hopen
  have hopened := h.opened i
  have hrecord := record_of_open (L := L) hopen
  rw [hrecord] at hopened
  obtain ⟨hfailed, hsick⟩ | ⟨hok, hm, hkeep, hsize, hptr, hdata⟩ :=
    Fil.fRead_spec h.sound (h.chain i) hopened hfs herror hmode btr
  · exact .inl ⟨hfailed, hsick⟩
  refine h.moved_outcome hopen hm fun a' hsize' hptr' hbytes hisOpen hread hwrite => ?_
  have hstart : (before L chains w i a').isOpen = true := Option.isSome_iff_ne_none.mpr hopen
  have hcan : (before L chains w i a').read = true := hmode
  have hbefore : (before L chains w i a').file.size = (w.fil i).fsize ∧
      (before L chains w i a').file.pointer = (w.fil i).fptr := by
    rw [before, hrecord]
    exact ⟨rfl, rfl⟩
  rw [Handle.Step, Handle.refusal, hstart, hcan, if_neg Bool.noConfusion, if_neg Bool.noConfusion]
  refine ⟨?_, Handle.eq_of ?_ ?_ ?_ ?_ ?_ ?_⟩
  · have hroom := hopened.fsize_le
    rw [File.available, hbefore.1, hbefore.2]
    show Reply.mk _ _ 0 = _
    rw [hok, hdata]
    congr 1
    refine List.map_congr_left fun k hk => (if_pos ?_).symm
    have := List.mem_range.mp hk
    omega
  · exact (bytes_kept (h.chain i) hm.effect hkeep hbytes).symm
  · rw [hsize', hsize]
    exact hbefore.1.symm
  · rw [hptr', hptr]
    show _ = (before L chains w i a').file.pointer + File.available _ btr
    rw [File.available, hbefore.1, hbefore.2]
  · exact hisOpen.trans hstart.symm
  · exact hread
  · exact hwrite

theorem write_outcome (hopen : (w.fil i).fs ≠ none) (hmode : (w.fil i).write = true) {wbuff : List UInt8}
    (hshort : wbuff.length < 512) (hspare : wbuff ≠ [] → (w.fil i).csect ≠ 0) :
    let r := Op.apply L i (w.fil i) w.disk (.write wbuff)
    Outcome L chains w i (.write wbuff) r.1 r.2.1 r.2.2 := by
  obtain ⟨hfs, herror, -, -⟩ := h.handle i hopen
  have hopened := h.opened i
  have hrecord := record_of_open (L := L) hopen
  rw [hrecord] at hopened
  obtain ⟨hfailed, hsick⟩ | ⟨hok, cs', hput⟩ := Fil.fWrite_spec h.sound (h.chain i) (h.noBad _) hopened hfs herror hmode
    wbuff hshort hspare
  · exact .inl ⟨hfailed, hsick⟩
  refine h.moved_outcome hopen hput.moved fun a' hsize' hptr' hbytes hisOpen hread hwrite => ?_
  have hstart : (before L chains w i a').isOpen = true := Option.isSome_iff_ne_none.mpr hopen
  have hcan : (before L chains w i a').write = true := hmode
  have hbefore : (before L chains w i a').file.size = (w.fil i).fsize ∧
      (before L chains w i a').file.pointer = (w.fil i).fptr := by
    rw [before, hrecord]
    exact ⟨rfl, rfl⟩
  have hroom := hput.moved.opened.fptr_le.trans hput.moved.opened.fsize_le
  rw [hput.fptr] at hroom
  rw [Handle.Step, Handle.refusal, hstart, hcan, if_neg Bool.noConfusion, if_neg Bool.noConfusion]
  refine ⟨_, hput.le, ?_, ?_, Handle.eq_of ?_ ?_ ?_ ?_ ?_ ?_⟩
  · rw [hbefore.1]
    exact hput.short
  · show Reply.mk _ _ _ = _
    rw [hok]
  · have hafter := bytes_after hput.moved.effect hput.wrote hroom hbytes
    rw [← hbefore.2] at hafter
    exact hafter.symm
  · show _ = max (before L chains w i a').file.size ((before L chains w i a').file.pointer + _)
    rw [hsize', hput.fsize, hbefore.1, hbefore.2]
  · show _ = (before L chains w i a').file.pointer + _
    rw [hptr', hput.fptr, hbefore.2]
  · exact hisOpen.trans hstart.symm
  · exact hread
  · exact hwrite

theorem seek_outcome (hopen : (w.fil i).fs ≠ none) {ofs : ℕ} (hofs : ofs < 2 ^ 32)
    (hseek : (w.fil i).target ofs ≠ 0 → (w.fil i).fptr ≠ ofs →
      (w.fil i).Seekable L.vol (L.home i) ((w.fil i).target ofs) w.disk) :
    let r := Op.apply L i (w.fil i) w.disk (.seek ofs)
    Outcome L chains w i (.seek ofs) r.1 r.2.1 r.2.2 := by
  obtain ⟨hfs, herror, -, -⟩ := h.handle i hopen
  have hopened := h.opened i
  have hrecord := record_of_open (L := L) hopen
  rw [hrecord] at hopened
  obtain ⟨hfailed, hsick⟩ | ⟨hok, cs', hgone⟩ := Fil.fLseek_spec h.sound (h.chain i) (h.noBad _) hopened hfs herror hofs
    hseek
  · exact .inl ⟨hfailed, hsick⟩
  refine h.moved_outcome hopen hgone.moved fun a' hsize' hptr' hbytes hisOpen hread hwrite => ?_
  have hstart : (before L chains w i a').isOpen = true := Option.isSome_iff_ne_none.mpr hopen
  have hbefore : (before L chains w i a').file.size = (w.fil i).fsize ∧
      (before L chains w i a').file.pointer = (w.fil i).fptr := by
    rw [before, hrecord]
    exact ⟨rfl, rfl⟩
  have htarget : (before L chains w i a').target ofs = if (w.fil i).fptr = ofs then ofs else (w.fil i).target ofs := by
    have hle := hopened.fptr_le
    have hsame : (before L chains w i a').target ofs = (w.fil i).target ofs := by
      rw [Handle.target, hbefore.1, Fil.target]
      rfl
    rw [hsame]
    by_cases hstay : (w.fil i).fptr = ofs
    · rw [if_pos hstay, Fil.target, if_neg (by omega)]
    · rw [if_neg hstay]
  rw [Handle.Step, Handle.refusal, hstart, if_neg Bool.noConfusion]
  refine ⟨_, ?_, ?_, Handle.eq_of ?_ ?_ hptr' ?_ ?_ ?_⟩
  · rw [htarget]
    exact hgone.stop.imp id fun h => ⟨h.1, h.2.2.1⟩
  · show Reply.mk _ _ _ = _
    rw [hok]
  · exact (bytes_kept (h.chain i) hgone.moved.effect hgone.keeps hbytes).symm
  · show _ = max (before L chains w i a').file.size _
    rw [hsize', hgone.fsize, hbefore.1]
  · exact hisOpen.trans hstart.symm
  · exact hread
  · exact hwrite

theorem sync_outcome (hopen : (w.fil i).fs ≠ none) (tim : ℕ) :
    let r := Op.apply L i (w.fil i) w.disk (.sync tim)
    Outcome L chains w i (.sync tim) r.1 r.2.1 r.2.2 := by
  have hopened := h.opened i
  have hold := record_of_open (L := L) hopen
  rw [hold] at hopened
  rw [Op.apply]
  obtain hfailed | ⟨hok, hfil, hset⟩ := h.fSync_settled hopen tim
  · exact .inl hfailed
  dsimp only
  generalize (w.fil i).fSync L.vol w.disk tim = r at hok hfil hset ⊢
  obtain ⟨y, fp, s'⟩ := r
  dsimp only at hok hfil hset ⊢
  subst hok hfil
  have hrecord : Fil.record { w.fil i with written := false } (s'.buf.view (L.home i, L.dirSect i)) (L.dirPtr i) =
      { w.fil i with written := false } := if_neg hopen
  have h' : Intact L chains ⟨s', Function.update w.fil i { w.fil i with written := false }⟩ := by
    refine h.quiet hset.sound hset.link hset.others ?_ (h.handle i) fun _ _ => hset.entry
    rw [hrecord]
    exact ⟨hopened.orgClust, hopened.stands, hopened.fptr_le, hopened.fsize_le, hopened.fsize_lt⟩
  refine quiet_outcome h' hset.healthy hset.counted hset.link hset.others hset.bytes fun a' hbytes hsize hptr hisOpen hread hwrite => ?_
  rw [hrecord] at hsize hptr
  have hstart : (before L chains w i a').isOpen = true := Option.isSome_iff_ne_none.mpr hopen
  rw [Handle.Step, Handle.refusal, hstart, if_neg Bool.noConfusion]
  refine ⟨rfl, Handle.eq_of hbytes.symm (hsize.trans ?_) (hptr.trans ?_) (hisOpen.trans ?_) hread hwrite⟩
  · rw [before, hold]
  · rw [before, hold]
  · rfl

theorem close_outcome (hopen : (w.fil i).fs ≠ none) (tim : ℕ) :
    let r := Op.apply L i (w.fil i) w.disk (.close tim)
    Outcome L chains w i (.close tim) r.1 r.2.1 r.2.2 := by
  have hopened := h.opened i
  have hold := record_of_open (L := L) hopen
  rw [hold] at hopened
  rw [Op.apply, Fil.fClose]
  obtain hfailed | ⟨hok, hfil, hset⟩ := h.fSync_settled hopen tim
  · exact .inl hfailed
  dsimp only
  generalize (w.fil i).fSync L.vol w.disk tim = r at hok hfil hset ⊢
  obtain ⟨y, fp, s'⟩ := r
  dsimp only at hok hfil hset ⊢
  subst hok hfil
  rw [if_pos rfl]
  have hrecord : Fil.record { w.fil i with written := false, fs := none } (s'.buf.view (L.home i, L.dirSect i))
      (L.dirPtr i) = Fil.load { w.fil i with written := false, fs := none } (s'.buf.view (L.home i, L.dirSect i))
        (L.dirPtr i) := if_pos rfl
  obtain ⟨hentrySize, hentryClust⟩ := hset.entry
  have h' : Intact L chains ⟨s', Function.update w.fil i { w.fil i with written := false, fs := none }⟩ := by
    refine h.quiet hset.sound hset.link hset.others ?_ (absurd rfl) (absurd rfl)
    rw [hrecord]
    exact hopened.start hentryClust hentrySize rfl rfl
  refine quiet_outcome h' hset.healthy hset.counted hset.link hset.others hset.bytes fun a' hbytes hsize hptr hisOpen hread hwrite => ?_
  rw [hrecord] at hsize hptr
  have hstart : (before L chains w i a').isOpen = true := Option.isSome_iff_ne_none.mpr hopen
  rw [Handle.Step, Handle.refusal, hstart, if_neg Bool.noConfusion]
  refine ⟨rfl, Handle.eq_of hbytes.symm (hsize.trans (hentrySize.trans ?_)) hptr hisOpen hread hwrite⟩
  rw [before, hold]

theorem opens_outcome (hclosed : (w.fil i).fs = none) (r₁ w₁ : Bool) :
    let r := Op.apply L i (w.fil i) w.disk (.opens r₁ w₁)
    Outcome L chains w i (.opens r₁ w₁) r.1 r.2.1 r.2.2 := by
  have hopened := h.opened i
  have hold := record_of_closed (L := L) hclosed
  rw [hold] at hopened
  have hpos : L.dirSect i ≠ 0 := by
    have := (L.vol (L.home i)).fatbase_pos
    have := L.dirSect_data i
    omega
  rw [Op.apply]
  dsimp only
  obtain ⟨hno, hsick⟩ | ⟨hok, hmove, htag, -⟩ := Disk.moveWindow_link h.sound (L.home i) (L.dirSect i)
  · rw [if_neg (by rw [hno]; exact Bool.noConfusion)]
    exact .inl ⟨.inr rfl, hsick⟩
  rw [if_pos hok]
  have htag := htag hpos
  generalize (w.disk.moveWindow L.vol (L.home i) (L.dirSect i)).2 = s' at hmove htag ⊢
  have heffect : Effect L.vol (L.home i) (chains i) w.disk (chains i) s' := (Effect.refl h.sound).quiet hmove
  have hview := h.view_entry heffect
  have hblock : s'.buf.block = w.disk.buf.view (L.home i, L.dirSect i) := by
    rw [← hview i, ← htag, Cache.view_tag]
  have hfs : ((w.fil i).ofEntry s' (L.home i) (L.dirPtr i) r₁ w₁).fs ≠ none := nofun
  have hsize : ((w.fil i).ofEntry s' (L.home i) (L.dirPtr i) r₁ w₁).fsize = (w.record L i).fsize := by
    rw [hold, ← hblock]
    rfl
  have hclust : ((w.fil i).ofEntry s' (L.home i) (L.dirPtr i) r₁ w₁).orgClust = (w.record L i).orgClust := by
    rw [hold, ← hblock]
    rfl
  have hrecord : ((w.fil i).ofEntry s' (L.home i) (L.dirPtr i) r₁ w₁).record
      (s'.buf.view (L.home i, L.dirSect i)) (L.dirPtr i) = (w.fil i).ofEntry s' (L.home i) (L.dirPtr i) r₁ w₁ :=
    if_neg hfs
  have h' : Intact L chains ⟨s', Function.update w.fil i ((w.fil i).ofEntry s' (L.home i) (L.dirPtr i) r₁ w₁)⟩ := by
    refine h.quiet hmove.sound hmove.link (fun j _ => by rw [hview]) ?_ (fun _ => ⟨rfl, rfl, ?_, rfl⟩) fun _ _ => ?_
    · rw [hrecord]
      exact (h.opened i).start hclust hsize rfl rfl
    · exact congrArg Prod.snd htag
    · rw [hview, ← hblock]
      exact ⟨rfl, rfl⟩
  refine quiet_outcome h' hmove.healthy hmove.counted hmove.link (fun j _ => by rw [hview])
    (fun j o ho => hmove.byte (h.chain j) ho) fun a' hbytes hsize' hptr hisOpen hread hwrite => ?_
  rw [hrecord] at hsize' hptr
  exact ⟨rfl, Handle.eq_of hbytes.symm (hsize'.trans hsize) hptr hisOpen hread hwrite⟩

theorem closed_outcome (hclosed : (w.fil i).fs = none) {o : Op} (ho : ∀ r w, o ≠ .opens r w) :
    let r := Op.apply L i (w.fil i) w.disk o
    Outcome L chains w i o r.1 r.2.1 r.2.2 := by
  have happly : Op.apply L i (w.fil i) w.disk o = (⟨.invalidObject, [], 0⟩, w.fil i, w.disk) := by
    cases o with
    | opens r w => exact absurd rfl (ho r w)
    | read btr => simp [Op.apply, Fil.fRead, Disk.validate, hclosed]
    | write wbuff => simp [Op.apply, Fil.fWrite, Disk.validate, hclosed]
    | seek ofs => simp [Op.apply, Fil.fLseek, Disk.validate, hclosed]
    | sync tim => simp [Op.apply, Fil.fSync, Disk.validate, hclosed]
    | close tim => simp [Op.apply, Fil.fClose, Fil.fSync, Disk.validate, hclosed]
  rw [happly]
  have h' : Intact L chains ⟨w.disk, Function.update w.fil i (w.fil i)⟩ := by
    rw [Function.update_eq_self]
    exact h
  refine quiet_outcome h' id id rfl (fun _ _ => rfl) (fun _ _ _ => rfl) fun a' hbytes hsize hptr hisOpen hread hwrite => ?_
  have hstart : (before L chains w i a').isOpen = false := by
    rw [before, hclosed]
    rfl
  have hrefused : (before L chains w i a').refusal o = some .invalidObject := by
    cases o with
    | opens r w => exact absurd rfl (ho r w)
    | _ => rw [Handle.refusal, if_pos hstart]
  rw [Handle.Step, hrefused]
  exact ⟨rfl, Handle.eq_of hbytes.symm hsize hptr hisOpen hread hwrite⟩

theorem denied_outcome (hopen : (w.fil i).fs ≠ none) {o : Op}
    (happly : w.disk.io 0 = .ok → Op.apply L i (w.fil i) w.disk o = (⟨.denied, [], 0⟩, w.fil i, w.disk.nextIo))
    (hfailed : ∀ left, w.disk.io 0 = .failed left → (Op.apply L i (w.fil i) w.disk o).1.result = .notReady)
    (hrefused : ∀ a' : Handle, (before L chains w i a').refusal o = some .denied) :
    let r := Op.apply L i (w.fil i) w.disk o
    Outcome L chains w i o r.1 r.2.1 r.2.2 := by
  have hopened := h.opened i
  have hold := record_of_open (L := L) hopen
  rw [hold] at hopened
  cases hio : w.disk.io 0 with
  | failed left => exact .inl ⟨.inl (hfailed left hio), Disk.sick_of_failed hio⟩
  | ok =>
    rw [happly hio]
    have hnext := Disk.relinked_nextIo h.sound
    have hm : Fil.Moved L.vol (L.home i) (chains i) (chains i) (w.fil i) (w.fil i) w.disk w.disk.nextIo :=
      ⟨(Effect.refl h.sound).quiet hnext, hopened, Fil.kin_of rfl, fun hw => ⟨hw, rfl, rfl⟩⟩
    refine h.moved_outcome hopen hm fun a' hsize hptr hbytes hisOpen hread hwrite => ?_
    rw [Handle.Step, hrefused]
    refine ⟨rfl, Handle.eq_of ?_ ?_ ?_ ?_ hread hwrite⟩
    · exact (bytes_kept (h.chain i) hm.effect hnext.data hbytes).symm
    · rw [hsize, before, hold]
    · rw [hptr, before, hold]
    · exact hisOpen.trans (Option.isSome_iff_ne_none.mpr hopen).symm

theorem op_outcome {o : Op} (hfit : o.Fits L w i) :
    let r := Op.apply L i (w.fil i) w.disk o
    Outcome L chains w i o r.1 r.2.1 r.2.2 := by
  by_cases hclosed : (w.fil i).fs = none
  · cases o with
    | opens r₁ w₁ => exact h.opens_outcome hclosed r₁ w₁
    | _ => exact h.closed_outcome hclosed nofun
  have hstart : ∀ a', (before L chains w i a').isOpen = true := fun _ => Option.isSome_iff_ne_none.mpr hclosed
  obtain ⟨hfs, herror, -, -⟩ := h.handle i hclosed
  cases o with
  | opens r₁ w₁ => exact absurd hfit hclosed
  | read btr =>
    cases hmode : (w.fil i).read with
    | true => exact h.read_outcome hclosed hmode btr
    | false =>
      refine h.denied_outcome hclosed (fun hio => ?_) (fun left hio => ?_) fun a' => ?_
      · simp [Op.apply, Fil.fRead, Disk.validate, hfs, hio, herror, hmode]
      · simp [Op.apply, Fil.fRead, Disk.validate, hfs, hio]
      · rw [Handle.refusal, hstart, if_neg Bool.noConfusion]
        exact if_pos hmode
  | write wbuff =>
    cases hmode : (w.fil i).write with
    | true => exact h.write_outcome hclosed hmode hfit.1 hfit.2
    | false =>
      refine h.denied_outcome hclosed (fun hio => ?_) (fun left hio => ?_) fun a' => ?_
      · simp [Op.apply, Fil.fWrite, Disk.validate, hfs, hio, herror, hmode]
      · simp [Op.apply, Fil.fWrite, Disk.validate, hfs, hio]
      · rw [Handle.refusal, hstart, if_neg Bool.noConfusion]
        exact if_pos hmode
  | seek ofs => exact h.seek_outcome hclosed hfit.1 hfit.2
  | sync tim => exact h.sync_outcome hclosed tim
  | close tim => exact h.close_outcome hclosed tim

end Calls

end Intact

end Session

end NoDiskEmu.Ff
