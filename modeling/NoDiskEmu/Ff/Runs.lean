import NoDiskEmu.Ff.Refine

/-! Whole sessions: what holds of the space of a volume and of the files after any run of calls, and what a power
loss leaves of a file that was closed. -/

namespace NoDiskEmu.Ff

open Library Library.Chain Library.WriteBack Fat

namespace Session

variable {ι : Type*}

/-- The cell is in use, but not for a file of the session. -/
def Stray (L : Layout ι) (chains : ι → List ℕ) (s : Disk) (a : ℕ × ℕ) : Prop :=
  (s.link L.vol a).Taken ∧ ∀ i, a ∉ cells (L.home i) (chains i)

/-- What is kept when the chains grow from `chains` to `chains'`. -/
structure Kept (L : Layout ι) (chains chains' : ι → List ℕ) (s s' : Disk) : Prop where
  healthy : s.Healthy L.vol → s'.Healthy L.vol
  counted : s.Counted L.vol → s'.Counted L.vol
  isPrefix : ∀ i, chains i <+: chains' i
  stray : ∀ a, Stray L chains' s' a → Stray L chains s a ∧ s'.link L.vol a = s.link L.vol a

variable {L : Layout ι} {chains chains' : ι → List ℕ} {w w' : Session ι} {i j : ι}

theorem Kept.refl (s : Disk) : Kept L chains chains s s := ⟨id, id, fun _ => List.prefix_rfl, fun _ h => ⟨h, rfl⟩⟩

theorem Kept.trans {chains'' : ι → List ℕ} {s s' s'' : Disk} (h : Kept L chains chains' s s')
    (h' : Kept L chains' chains'' s' s'') : Kept L chains chains'' s s'' where
  healthy := h'.healthy ∘ h.healthy
  counted := h'.counted ∘ h.counted
  isPrefix i := (h.isPrefix i).trans (h'.isPrefix i)
  stray a ha := by
    obtain ⟨hmid, hlink⟩ := h'.stray a ha
    obtain ⟨hstart, hlink'⟩ := h.stray a hmid
    exact ⟨hstart, hlink.trans hlink'⟩

variable [DecidableEq ι]

/-- Every call of a run finds what it needs. -/
def FitsRun (L : Layout ι) (w : Session ι) : List (Call ι) → Prop
  | [] => True
  | c :: calls => c.Fits L w ∧ FitsRun L (w.step L c).2 calls

/-- How the files change in a call that leaves `w'` behind. -/
def Changes (L : Layout ι) (w' : Session ι) (c : Call ι) (y : Reply) (f f' : ι → Handle) : Prop :=
  match c with
  | .op i o => ∃ a', (f i).Step (Fil.Full L.vol (L.home i) w'.disk) a' o y ∧ f' = Function.update f i a'
  | .remove _ _ _ => y = ⟨.ok, [], 0⟩ ∧ f' = f

/-- The replies of a run are those of the files `f`, which become `f'`. -/
def Explains (L : Layout ι) (w : Session ι) : List (Call ι) → (ι → Handle) → (ι → Handle) → Prop
  | [], f, f' => f' = f
  | c :: calls, f, f' =>
    ∃ f₁, Changes L (w.step L c).2 c (w.step L c).1 f f₁ ∧ Explains L (w.step L c).2 calls f₁ f'

theorem Done.kept {cs' : List ℕ} {o : Op} {y : Reply} {fp' : Fil} {s' : Disk} (h : Done L chains cs' w i o y fp' s') :
    Kept L chains (Function.update chains i cs') w.disk s' := by
  have hle : ∀ j, chains j <+: Function.update chains i cs' j := by
    intro j
    by_cases hji : j = i
    · subst hji
      rw [Function.update_self]
      exact h.isPrefix
    · rw [Function.update_of_ne hji]
  refine ⟨h.healthy, h.counted, hle, fun a ⟨htaken, hnot⟩ => ?_⟩
  have hown := hnot i
  rw [Function.update_self] at hown
  have hlink := h.link a hown
  refine ⟨⟨hlink ▸ htaken, fun j hmem => hnot j ?_⟩, hlink⟩
  exact ((hle j).map (Prod.mk (L.home j))).subset hmem

/-- One call. -/
theorem step_outcome (h : Intact L chains w) {c : Call ι} (hfit : c.Fits L w) :
    let r := w.step L c
    (Failed r.1.result ∧ ¬w.disk.Healthy L.vol) ∨
      ¬Failed r.1.result ∧ ∃ chains', Intact L chains' r.2 ∧ Kept L chains chains' w.disk r.2.disk ∧
        ∀ f', (∀ i, Shows L chains' r.2 i (f' i)) → ∃ f, (∀ i, Shows L chains w i (f i)) ∧ Changes L r.2 c r.1 f f' := by
  cases c with
  | op i o =>
    obtain hfailed | ⟨cs', hdone⟩ := h.op_outcome hfit
    · exact .inl hfailed
    · refine .inr ⟨(hdone.back _ (before_shows default)).not_failed, _, hdone.intact, hdone.kept, fun f' hf' => ?_⟩
      have hback := hdone.back (f' i) (hf' i)
      refine ⟨Function.update f' i (before L chains w i (f' i)), fun j => ?_, f' i, ?_, ?_⟩
      · by_cases hji : j = i
        · subst hji
          rw [Function.update_self]
          exact before_shows _
        · rw [Function.update_of_ne hji]
          exact hdone.others j hji _ (hf' j)
      · rw [Function.update_self]
        exact hback
      · rw [Function.update_idem, Function.update_eq_self]
  | remove fs marks clust =>
    obtain ⟨cs, hr⟩ := hfit chains h
    obtain hfailed | ⟨hok, hu⟩ := Disk.fUnlink_spec h.sound hr.marks_data hr.marks_ne hr.chain hr.head
    · exact .inl hfailed
    · refine .inr ⟨?_, chains, h.removed hr hu, ⟨hu.healthy, hu.counted, fun _ => List.prefix_rfl, ?_⟩, fun f' hf' =>
        ⟨f', fun j => ?_, ?_, rfl⟩⟩
      · show ¬Failed (w.disk.fUnlink L.vol fs marks clust).1
        rw [hok]
        rintro (hf | hf) <;> cases hf
      · rintro a ⟨htaken, hnot⟩
        have hlink : (w.step L (.remove fs marks clust)).2.disk.link L.vol a = w.disk.link L.vol a := by
          refine (congrFun hu.link a).trans (clear_of_notMem fun hmem => ?_)
          have hfree := (congrFun hu.link a).trans (clear_of_mem hmem)
          exact htaken.ne_free hfree
        exact ⟨⟨hlink ▸ htaken, hnot⟩, hlink⟩
      · obtain ⟨hsize, hptr, hbytes, hopen, hread, hwrite⟩ := hf' j
        have hrecord := hr.record hu j
        refine ⟨hsize.trans (by rw [← hrecord]; rfl), hptr.trans (by rw [← hrecord]; rfl), fun o ho => ?_, hopen, hread,
          hwrite⟩
        rw [← hbytes o ho]
        refine (byte_eq_view ho fun c hc q hq => funext fun k => ?_).symm
        refine hu.data _ (data_clust2sect (Disk.cluster_range (h.chain j) hc)) k fun m hm heq => ?_
        exact hr.marks_away m hm j c hc q hq (congrArg Prod.fst heq).symm
      · show Reply.mk _ _ _ = _
        rw [hok]

/-- A run. -/
theorem run_outcome (calls : List (Call ι)) (h : Intact L chains w) (hfit : w.FitsRun L calls) :
    let r := w.run L calls
    ((∃ y ∈ r.1, Failed y.result) ∧ ¬w.disk.Healthy L.vol) ∨
      (∀ y ∈ r.1, ¬Failed y.result) ∧ ∃ chains', Intact L chains' r.2 ∧ Kept L chains chains' w.disk r.2.disk ∧
        ∀ f', (∀ i, Shows L chains' r.2 i (f' i)) → ∃ f, (∀ i, Shows L chains w i (f i)) ∧ w.Explains L calls f f' := by
  induction calls generalizing w chains with
  | nil => exact .inr ⟨nofun, chains, h, .refl _, fun f' hf' => ⟨f', hf', rfl⟩⟩
  | cons c calls ih =>
    obtain ⟨hfailed, hsick⟩ | ⟨hgood, chains₁, hintact, hkept, hback⟩ := step_outcome h hfit.1
    · exact .inl ⟨⟨_, List.mem_cons_self, hfailed⟩, hsick⟩
    obtain ⟨⟨y, hy, hfailed⟩, hsick⟩ | ⟨hgood', chains', hintact', hkept', hback'⟩ := ih hintact hfit.2
    · exact .inl ⟨⟨y, List.mem_cons_of_mem _ hy, hfailed⟩, fun hs => hsick (hkept.healthy hs)⟩
    · refine .inr ⟨fun y hy => ?_, chains', hintact', hkept.trans hkept', fun f' hf' => ?_⟩
      · obtain rfl | hy := List.mem_cons.mp hy
        · exact hgood
        · exact hgood' y hy
      obtain ⟨f₁, hf₁, hexplains⟩ := hback' f' hf'
      obtain ⟨f, hf, hchanges⟩ := hback f₁ hf₁
      exact ⟨f, hf, f₁, hchanges, hexplains⟩

section Small

/-- A volume with two clusters of a sector each. -/
def smallVolume : Volume where
  sectsFat := 1
  maxClust := 4
  fatbase := 1
  database := 3
  csize := 1
  nFats := 1
  fsiSector := 0
  fatbase_pos := by decide
  nFats_pos := by decide
  csize_pos := by decide
  csize_le := by decide
  fsiSector_lt := by decide
  fats_le := by decide
  table_le := by decide
  maxClust_ge := by decide
  maxClust_le := by decide
  sectors_lt := by decide

def smallLayout : Layout Bool where
  vol _ := smallVolume
  home _ := 0
  dirSect _ := 2
  dirPtr i := if i then 32 else 0
  dirSect_data _ := le_rfl
  apart i j hne _ _ := by cases i <;> cases j <;> simp at hne ⊢

/-- Two empty files that are not open. -/
def emptySession : Session Bool where
  disk := ⟨⟨fun _ _ => 0, (0, 0), fun _ => 0, false⟩, fun _ => 0, fun _ => 2, fun _ => false, fun _ => .ok⟩
  fil _ := ⟨none, false, false, false, false, 0, 0, 0, 0, 0, 0, 0, 0⟩

theorem emptySession_link (v : ℕ) {c : ℕ} (hc : 2 ≤ c) (hlt : c < 4) :
    emptySession.disk.link smallLayout.vol (v, c) = .free := by
  have hview : emptySession.disk.buf.view = fun _ _ => 0 := Function.update_eq_self _ _
  have hfat : emptySession.disk.fatByte smallLayout.vol v = fun _ => 0 :=
    funext fun i => by rw [Disk.fatByte, hview]
  have hsmall : ∀ c < 4, FsType.fat12.entry (fun _ => 0) c = 0 := by decide
  have hzero : (smallLayout.vol (v, c).1).fsType.entry (fun _ => 0) (v, c).2 = 0 := hsmall c hlt
  rw [Disk.link, if_pos ⟨hc, hlt⟩, hfat, Volume.linkOf, if_pos hzero]

theorem emptySession_intact : Intact smallLayout (fun _ => []) emptySession where
  sound := ⟨fun h => absurd h.1 (by decide), nofun⟩
  noBad v c hc hlt h := by cases (emptySession_link v hc hlt).symm.trans h
  ledger := ⟨fun _ => trivial, fun _ _ _ => List.disjoint_nil_left _⟩
  opened i := by cases i <;> exact ⟨rfl, .inl (.inl ⟨rfl, rfl⟩), le_rfl, by decide, by decide⟩
  handle _ h := absurd rfl h
  entry _ h := absurd rfl h
  away i c q hlow hlt hq hsect := by
    rw [clust2sect_add ⟨hlow, hlt⟩] at hsect
    have hsect : 2 = 3 + ((c - 2) * 1 + q) := hsect
    omega

theorem emptySession_healthy : emptySession.disk.Healthy smallLayout.vol := ⟨fun _ => rfl, fun _ _ _ _ _ _ => rfl⟩

/-- Both clusters are taken, one for each file. -/
def someCalls : List (Call Bool) :=
  [.op false (.opens true true), .op false (.write [7]), .op true (.opens true true), .op true (.write [8]),
    .op false (.seek 0), .op false (.read 1), .op true (.close 0)]

theorem someCalls_fit : emptySession.FitsRun smallLayout someCalls :=
  ⟨rfl, ⟨by decide, fun _ => by decide⟩, rfl, ⟨by decide, fun _ => by decide⟩,
    ⟨by decide, fun h => absurd rfl h⟩, trivial, trivial, trivial⟩

end Small

/-- The clusters of a volume are never shared or lost: as long as no access fails, every file has a chain of its
own behind the one it had, all that is known of it agrees with that chain, the numbers of free clusters stay right,
and a cluster that is in use for no file of the session was so before, with the same link. -/
theorem run_keeps (calls : List (Call ι)) (h : Intact L chains w) (hfit : w.FitsRun L calls)
    (hhealthy : w.disk.Healthy L.vol) :
    let r := w.run L calls
    (∀ y ∈ r.1, ¬Failed y.result) ∧ r.2.disk.Healthy L.vol ∧ ∃ chains', Intact L chains' r.2 ∧
      (∀ i, chains i <+: chains' i) ∧ (w.disk.Counted L.vol → r.2.disk.Counted L.vol) ∧
        ∀ a, Stray L chains' r.2.disk a → Stray L chains w.disk a ∧ r.2.disk.link L.vol a = w.disk.link L.vol a := by
  obtain ⟨-, hsick⟩ | ⟨hgood, chains', hintact, hkept, -⟩ := run_outcome calls h hfit
  · exact absurd hhealthy hsick
  · exact ⟨hgood, hkept.healthy hhealthy, chains', hintact, hkept.isPrefix, hkept.counted, hkept.stray⟩

theorem someCalls_keep :
    ∃ chains', Intact smallLayout chains' (emptySession.run smallLayout someCalls).2 ∧
      ∀ a, Stray smallLayout chains' (emptySession.run smallLayout someCalls).2.disk a →
        Stray smallLayout (fun _ => []) emptySession.disk a := by
  obtain ⟨-, -, chains', hintact, -, -, hstray⟩ :=
    run_keeps someCalls emptySession_intact someCalls_fit emptySession_healthy
  exact ⟨chains', hintact, fun a ha => (hstray a ha).1⟩

/-- The file objects are arrays of bytes: unless an access fails, there are contents of the files at the start that
explain every reply of the run and what the files have become. -/
theorem run_refines (calls : List (Call ι)) (h : Intact L chains w) (hfit : w.FitsRun L calls) :
    let r := w.run L calls
    ((∃ y ∈ r.1, Failed y.result) ∧ ¬w.disk.Healthy L.vol) ∨
      ∃ chains' f f', (∀ i, Shows L chains w i (f i)) ∧ w.Explains L calls f f' ∧
        ∀ i, Shows L chains' r.2 i (f' i) := by
  obtain hfailed | ⟨-, chains', -, -, hback⟩ := run_outcome calls h hfit
  · exact .inl hfailed
  · obtain ⟨f, hf, hexplains⟩ := hback _ fun i => before_shows default
    exact .inr ⟨chains', f, _, hf, hexplains, fun _ => before_shows default⟩

theorem someCalls_refine :
    ∃ chains' f f', (∀ i, Shows smallLayout (fun _ => []) emptySession i (f i)) ∧
      emptySession.Explains smallLayout someCalls f f' ∧
        ∀ i, Shows smallLayout chains' (emptySession.run smallLayout someCalls).2 i (f' i) :=
  (run_refines someCalls emptySession_intact someCalls_fit).resolve_left fun h => h.2 emptySession_healthy

end Session

/-- The session of one file. -/
def Layout.only {ι : Type*} (L : Layout ι) (i : ι) : Layout Unit where
  vol := L.vol
  home _ := L.home i
  dirSect _ := L.dirSect i
  dirPtr _ := L.dirPtr i
  dirSect_data _ := L.dirSect_data i
  apart _ _ hne := absurd rfl hne

/-- The disks `s'` are those of `s` after the power was off: only what was written is left, and the buffer holds no
sector of a volume. -/
structure Disk.Remounted (s s' : Disk) : Prop where
  medium : s'.buf.medium = s.buf.medium
  sect : s'.buf.tag.2 = 0
  clean : s'.buf.dirty = false

namespace Session

variable {ι : Type*} {L : Layout ι} {chains : ι → List ℕ} {w : Session ι} {i : ι} {s' s'' : Disk} {fp : Fil}

theorem remounted_view {vol : ℕ → Volume} (h : s'.Remounted s'') (hs : s'.Sound vol) (hclean : s'.buf.dirty = false)
    {a : ℕ × ℕ} (ha : Disk.Primary vol a) : s''.buf.view a = s'.buf.view a := by
  have hne : a ≠ s''.buf.tag := by
    rintro rfl
    have hbase := (vol s''.buf.tag.1).fatbase_pos
    have hlow := ha.1
    rw [h.sect] at hlow
    omega
  rw [Cache.view_of_ne hne, h.medium, hs.view_clean hclean ha]

/-- A file that was closed is on the disk. -/
theorem Settled.remounted (h : Intact L chains w) (hopen : (w.fil i).fs ≠ none) (hset : Settled L chains w i s')
    (hwritten : (w.fil i).written = true) (hmount : s'.Remounted s'') (hfp : fp.fs = none) :
    Intact (L.only i) (fun _ => chains i) ⟨s'', fun _ => fp⟩ ∧
      ∀ a, Shows L chains w i a → Shows (L.only i) (fun _ => chains i) ⟨s'', fun _ => fp⟩ ()
        ⟨{ a.file with pointer := 0 }, false, fp.read, fp.write⟩ := by
  have hview : ∀ a, Disk.Primary L.vol a → s''.buf.view a = s'.buf.view a :=
    fun _ => remounted_view hmount hset.sound (hset.clean hwritten)
  have hlink : s''.link L.vol = w.disk.link L.vol := by
    rw [← hset.link]
    funext ⟨v, c⟩
    rw [Disk.link_congr (b := s'.fatByte L.vol v) fun k hk => ?_, Disk.link]
    exact congrFun (hview _ (Disk.primary_fat (Nat.div_lt_of_lt_mul hk))) _
  have hslot := hview (L.home i, L.dirSect i) (Disk.primary_data (L.dirSect_data i))
  obtain ⟨hsize, hclust⟩ := hset.entry
  have hopened := h.opened i
  have hold := record_of_open (L := L) hopen
  rw [hold] at hopened
  have hrecord : record (L.only i) ⟨s'', fun _ => fp⟩ () = fp.load (s'.buf.view (L.home i, L.dirSect i)) (L.dirPtr i) := by
    rw [← hslot]
    exact if_pos hfp
  refine ⟨⟨?_, fun v c hc hlt => ?_, ⟨fun _ => ?_, fun _ _ hne => absurd rfl hne⟩, fun _ => ?_, fun _ => absurd hfp,
    fun _ => absurd hfp, fun _ c q hlow hlt hq hsect => ?_⟩, fun a ha => ⟨?_, ?_, fun o ho => ?_, ?_, rfl, rfl⟩⟩
  · refine ⟨fun hprimary => ?_, fun hdirty => Bool.noConfusion (hmount.clean.symm.trans hdirty)⟩
    have hbase := (L.vol s''.buf.tag.1).fatbase_pos
    have hlow : (L.vol s''.buf.tag.1).fatbase ≤ s''.buf.tag.2 := hprimary.1
    rw [hmount.sect] at hlow
    omega
  · show s''.link L.vol (v, c) ≠ .bad
    rw [hlink]
    exact h.noBad v c hc hlt
  · show IsChain (s''.link L.vol) (cells (L.home i) (chains i))
    rw [hlink]
    exact h.chain i
  · rw [hrecord]
    exact hopened.start hclust hsize rfl rfl
  · obtain ⟨htaken, hnot⟩ := h.away i c q hlow hlt hq hsect
    exact ⟨hlink ▸ htaken, fun _ => hnot i⟩
  · rw [hrecord]
    exact ha.size.trans ((congrArg Fil.fsize hold).trans hsize.symm)
  · rw [hrecord]
    rfl
  · refine Eq.trans ?_ ((hset.bytes i o ho).trans (ha.bytes o ho))
    refine byte_eq_view ho fun c hc q hq => hview _ (Disk.primary_data ?_)
    exact data_clust2sect (Disk.cluster_range (h.chain i) hc)
  · show false = fp.fs.isSome
    rw [hfp]
    rfl

/-- After any run, a file that was written and closed survives a loss of power: what is left of the disks has its
entry and its chain, and shows the bytes that it had. -/
theorem closed_survives [DecidableEq ι] (calls : List (Call ι)) (h : Intact L chains w) (hfit : w.FitsRun L calls)
    (hgood : ∀ y ∈ (w.run L calls).1, ¬Failed y.result) (i : ι) (tim : ℕ) :
    let w' := (w.run L calls).2
    let r := (w'.fil i).fClose L.vol w'.disk tim
    (w'.fil i).fs ≠ none → (w'.fil i).written = true → r.1 = .ok → ∃ chains', Intact L chains' w' ∧
      ∀ s'' fp, r.2.2.Remounted s'' → fp.fs = none →
        Intact (L.only i) (fun _ => chains' i) ⟨s'', fun _ => fp⟩ ∧
          ∀ a, Shows L chains' w' i a → Shows (L.only i) (fun _ => chains' i) ⟨s'', fun _ => fp⟩ ()
            ⟨{ a.file with pointer := 0 }, false, fp.read, fp.write⟩ := by
  intro w' r hopen hwritten hok
  obtain ⟨⟨y, hy, hfailed⟩, -⟩ | ⟨-, chains', hintact, -⟩ := run_outcome calls h hfit
  · exact absurd hfailed (hgood y hy)
  refine ⟨chains', hintact, fun s'' fp hmount hfp => ?_⟩
  obtain ⟨hfailed, -⟩ | ⟨-, -, hset⟩ := hintact.fSync_settled hopen tim
  · have hok' : ((w'.fil i).fSync L.vol w'.disk tim).1 = .ok := hok
    obtain hf | hf := hfailed <;> cases hok'.symm.trans hf
  · exact hset.remounted hintact hopen hwritten hmount hfp

theorem someCalls_survive :
    ∃ chains', Intact smallLayout chains' (emptySession.run smallLayout someCalls).2 ∧
      ∀ s'' fp, (((emptySession.run smallLayout someCalls).2.fil false).fClose smallLayout.vol
          (emptySession.run smallLayout someCalls).2.disk 0).2.2.Remounted s'' → fp.fs = none →
        Intact (smallLayout.only false) (fun _ => chains' false) ⟨s'', fun _ => fp⟩ := by
  obtain ⟨chains', hintact, hmount⟩ := closed_survives someCalls emptySession_intact someCalls_fit (by decide) false 0
    (by decide) (by decide) (by decide)
  exact ⟨chains', hintact, fun s'' fp hs hfp => (hmount s'' fp hs hfp).1⟩

end Session

end NoDiskEmu.Ff
