import NoDiskEmu.Ff.Unlink

/-! Files that are opened, used and closed in any order on the volumes of the disks, while the space of other files
is given back. -/

namespace NoDiskEmu.Ff

open Library Library.Chain Library.WriteBack Fat

/-- Where the directory entries of the files are; no two share bytes. -/
structure Layout (ι : Type*) where
  vol : ℕ → Volume
  home : ι → ℕ
  dirSect : ι → ℕ
  dirPtr : ι → ℕ
  dirSect_data : ∀ i, (vol (home i)).fatbase + (vol (home i)).nFats * (vol (home i)).sectsFat ≤ dirSect i
  apart : ∀ i j, i ≠ j → home i = home j → dirSect i = dirSect j →
    dirPtr i + 32 ≤ dirPtr j ∨ dirPtr j + 32 ≤ dirPtr i

/-- The disks, and the file objects. -/
structure Session (ι : Type*) where
  disk : Disk
  fil : ι → Fil

inductive Op
  | opens (read write : Bool)
  | read (btr : ℕ)
  | write (wbuff : List UInt8)
  | seek (ofs : ℕ)
  | sync (tim : ℕ)
  | close (tim : ℕ)

inductive Call (ι : Type*)
  | op (i : ι) (o : Op)
  | remove (fs : ℕ) (marks : List (ℕ × ℕ)) (clust : ℕ)

structure Reply where
  result : FResult
  data : List UInt8 := []
  count : ℕ := 0

variable {ι : Type*}

/-- A call for a file. The search of `f_open` leaves the sector of the entry in the window. -/
def Op.apply (L : Layout ι) (i : ι) (fp : Fil) (s : Disk) : Op → Reply × Fil × Disk
  | .opens r w =>
    let m := s.moveWindow L.vol (L.home i) (L.dirSect i)
    if m.1 then (⟨.ok, [], 0⟩, fp.ofEntry m.2 (L.home i) (L.dirPtr i) r w, m.2) else (⟨.rwError, [], 0⟩, fp, m.2)
  | .read btr => let r := fp.fRead L.vol s btr; (⟨r.1, r.2.1, 0⟩, r.2.2)
  | .write wbuff => let r := fp.fWrite L.vol s wbuff; (⟨r.1, [], r.2.1⟩, r.2.2)
  | .seek ofs => let r := fp.fLseek L.vol s ofs; (⟨r.1, [], 0⟩, r.2)
  | .sync tim => let r := fp.fSync L.vol s tim; (⟨r.1, [], 0⟩, r.2)
  | .close tim => let r := fp.fClose L.vol s tim; (⟨r.1, [], 0⟩, r.2)

/-- A file as its object has it, or as the entry at `dirPtr` has it if it is not open. -/
def Fil.record (fp : Fil) (b : Sector) (dirPtr : ℕ) : Fil := if fp.fs = none then fp.load b dirPtr else fp

namespace Session

/-- One call, for a file of the session or to delete another one. -/
def step [DecidableEq ι] (L : Layout ι) (w : Session ι) : Call ι → Reply × Session ι
  | .op i o => let r := o.apply L i (w.fil i) w.disk; (r.1, ⟨r.2.2, Function.update w.fil i r.2.1⟩)
  | .remove fs marks clust => let r := w.disk.fUnlink L.vol fs marks clust; (⟨r.1, [], 0⟩, ⟨r.2, w.fil⟩)

def run [DecidableEq ι] (L : Layout ι) (w : Session ι) : List (Call ι) → List Reply × Session ι
  | [] => ([], w)
  | c :: cs => let r := w.step L c; let q := run L r.2 cs; (r.1 :: q.1, q.2)

def record (L : Layout ι) (w : Session ι) (i : ι) : Fil :=
  (w.fil i).record (w.disk.buf.view (L.home i, L.dirSect i)) (L.dirPtr i)

/-- The chains of the files are apart, and everything that is known of a file agrees with its chain. -/
structure Intact (L : Layout ι) (chains : ι → List ℕ) (w : Session ι) : Prop where
  sound : w.disk.Sound L.vol
  noBad : ∀ v, w.disk.NoBad L.vol v
  ledger : Ledger (w.disk.link L.vol) fun i => cells (L.home i) (chains i)
  opened : ∀ i, (w.record L i).Opened (L.vol (L.home i)) (chains i)
  handle : ∀ i, (w.fil i).fs ≠ none → (w.fil i).fs = some (L.home i) ∧ (w.fil i).error = false ∧
    (w.fil i).dirSect = L.dirSect i ∧ (w.fil i).dirPtr = L.dirPtr i
  entry : ∀ i, (w.fil i).fs ≠ none → (w.fil i).written = false →
    let fp := (w.fil i).load (w.disk.buf.view (L.home i, L.dirSect i)) (L.dirPtr i)
    fp.fsize = (w.fil i).fsize ∧ fp.orgClust = (w.fil i).orgClust
  away : ∀ i c q, 2 ≤ c → c < (L.vol (L.home i)).maxClust → q < (L.vol (L.home i)).csize →
    L.dirSect i = (L.vol (L.home i)).clust2sect c + q → (w.disk.link L.vol (L.home i, c)).Taken ∧
      ∀ j, (L.home i, c) ∉ cells (L.home j) (chains j)

/-- A file outside the session, with the clusters `cs`: it shares none with a file of the session, and its entries
lie neither in their clusters nor in their entries. -/
structure Removable (L : Layout ι) (chains : ι → List ℕ) (s : Disk) (fs : ℕ) (marks : List (ℕ × ℕ)) (clust : ℕ)
    (cs : List ℕ) : Prop where
  marks_ne : marks ≠ []
  marks_data : ∀ m ∈ marks, (L.vol fs).fatbase + (L.vol fs).nFats * (L.vol fs).sectsFat ≤ m.1
  marks_apart : ∀ m ∈ marks, ∀ i, (fs, m.1) = (L.home i, L.dirSect i) → m.2 < L.dirPtr i ∨ L.dirPtr i + 32 ≤ m.2
  marks_away : ∀ m ∈ marks, ∀ i, ∀ c ∈ chains i, ∀ q < (L.vol (L.home i)).csize,
    (fs, m.1) ≠ (L.home i, (L.vol (L.home i)).clust2sect c + q)
  chain : IsChain (s.link L.vol) (cells fs cs)
  head : cs.head? = some clust ∨ cs = [] ∧ ¬(2 ≤ clust ∧ clust < (L.vol fs).maxClust)
  apart : ∀ i, (cells fs cs).Disjoint (cells (L.home i) (chains i))
  entries : ∀ i, ∀ c ∈ cs, ∀ q < (L.vol fs).csize, (L.home i, L.dirSect i) ≠ (fs, (L.vol fs).clust2sect c + q)

end Session

/-- The calls that the code does what it should for: one that opens a file finds it closed, one that writes has
fewer bytes than a sector and a handle that is not spent, and `f_lseek` gets a handle that it understands. -/
def Op.Fits (L : Layout ι) (w : Session ι) (i : ι) : Op → Prop
  | .opens _ _ => (w.fil i).fs = none
  | .write wbuff => wbuff.length < 512 ∧ (wbuff ≠ [] → (w.fil i).csect ≠ 0)
  | .seek ofs => ofs < 2 ^ 32 ∧ ((w.fil i).target ofs ≠ 0 → (w.fil i).fptr ≠ ofs →
      (w.fil i).Seekable L.vol (L.home i) ((w.fil i).target ofs) w.disk)
  | _ => True

def Call.Fits (L : Layout ι) (w : Session ι) : Call ι → Prop
  | .op i o => o.Fits L w i
  | .remove fs marks clust => ∀ chains, Session.Intact L chains w → ∃ cs, Session.Removable L chains w.disk fs marks clust cs

namespace Session

variable {L : Layout ι} {chains : ι → List ℕ} {w : Session ι} {s' : Disk} {fp' : Fil} {i j : ι} {cs' : List ℕ}

theorem record_of_open (h : (w.fil i).fs ≠ none) : w.record L i = w.fil i := if_neg h

theorem record_of_closed (h : (w.fil i).fs = none) :
    w.record L i = (w.fil i).load (w.disk.buf.view (L.home i, L.dirSect i)) (L.dirPtr i) := if_pos h

namespace Intact

theorem chain (h : Intact L chains w) (i : ι) : IsChain (w.disk.link L.vol) (cells (L.home i) (chains i)) :=
  h.ledger.chain i

/-- No entry is in a cluster of a file. -/
theorem entry_away (h : Intact L chains w) {c q : ℕ} (hc : c ∈ chains j) (hq : q < (L.vol (L.home j)).csize) :
    (L.home i, L.dirSect i) ≠ (L.home j, (L.vol (L.home j)).clust2sect c + q) := by
  intro heq
  have hhome : L.home i = L.home j := congrArg Prod.fst heq
  have hsect : L.dirSect i = _ := congrArg Prod.snd heq
  rw [← hhome] at hsect hq
  have hrange := Disk.cluster_range (h.chain j) hc
  rw [← hhome] at hrange
  refine (h.away i c q hrange.1 hrange.2 hq hsect).2 j ?_
  rw [hhome]
  exact List.mem_map_of_mem hc

/-- A file takes no cluster with an entry either. -/
theorem entry_away_effect (h : Intact L chains w)
    (heffect : Effect L.vol (L.home i) (chains i) w.disk cs' s') {c q : ℕ} (hc : c ∈ cs')
    (hq : q < (L.vol (L.home i)).csize) :
    (L.home j, L.dirSect j) ≠ (L.home i, (L.vol (L.home i)).clust2sect c + q) := by
  intro heq
  have hhome : L.home j = L.home i := congrArg Prod.fst heq
  have hsect : L.dirSect j = _ := congrArg Prod.snd heq
  rw [← hhome] at hsect hq
  have hrange := Disk.cluster_range (heffect.chain (h.chain i)) hc
  rw [← hhome] at hrange
  obtain ⟨htaken, hnot⟩ := h.away j c q hrange.1 hrange.2 hq hsect
  refine heffect.notMem_of_taken (h.chain i) htaken (hnot i) ?_
  rw [hhome]
  exact List.mem_map_of_mem hc

theorem orgClust_lt (h : Intact L chains w) (hopen : (w.fil i).fs ≠ none) : (w.fil i).orgClust < 2 ^ 32 := by
  have hclust := (h.opened i).orgClust
  rw [record_of_open hopen] at hclust
  rw [hclust]
  have hmax := (L.vol (L.home i)).maxClust_le
  cases hcs : chains i with
  | nil => exact Nat.two_pow_pos 32
  | cons c cs =>
    have hrange := Disk.cluster_range (h.chain i) (c := c) (by rw [hcs]; exact List.mem_cons_self)
    show c < _
    omega

theorem view_entry (h : Intact L chains w) (heffect : Effect L.vol (L.home i) (chains i) w.disk cs' s') (j : ι) :
    s'.buf.view (L.home j, L.dirSect j) = w.disk.buf.view (L.home j, L.dirSect j) :=
  heffect.frame (L.dirSect_data j) fun _ hc _ hq => h.entry_away_effect heffect hc hq

end Intact

theorem Removable.load {fs clust : ℕ} {marks : List (ℕ × ℕ)} {cs : List ℕ} {s : Disk}
    (hr : Removable L chains s fs marks clust cs) (hu : Disk.Unlinked L.vol fs marks (cells fs cs) s s') (fp : Fil)
    (j : ι) :
    fp.load (s'.buf.view (L.home j, L.dirSect j)) (L.dirPtr j) =
      fp.load (s.buf.view (L.home j, L.dirSect j)) (L.dirPtr j) :=
  Fil.load_congr fun k hk hlt => hu.data _ (L.dirSect_data j) k fun m hm heq => by
    obtain hk' | hk' := hr.marks_apart m hm j (congrArg Prod.fst heq).symm <;>
      · have : k = m.2 := congrArg Prod.snd heq
        omega

theorem Removable.record {fs clust : ℕ} {marks : List (ℕ × ℕ)} {cs : List ℕ}
    (hr : Removable L chains w.disk fs marks clust cs)
    (hu : Disk.Unlinked L.vol fs marks (cells fs cs) w.disk s') (j : ι) :
    record L ⟨s', w.fil⟩ j = w.record L j := by
  rw [Session.record, Session.record, Fil.record, hr.load hu, Fil.record]

namespace Intact

/-- A file outside the session is deleted. -/
theorem removed (h : Intact L chains w) {fs clust : ℕ} {marks : List (ℕ × ℕ)} {cs : List ℕ}
    (hr : Removable L chains w.disk fs marks clust cs)
    (hu : Disk.Unlinked L.vol fs marks (cells fs cs) w.disk s') : Intact L chains ⟨s', w.fil⟩ := by
  refine ⟨hu.sound, fun v c hc hlt => ?_, ⟨fun i => ?_, h.ledger.apart⟩, fun j => ?_, h.handle, fun j => ?_,
    fun j c q hlow hlt hq hsect => ?_⟩
  · rw [hu.link]
    by_cases hmem : (v, c) ∈ cells fs cs
    · rw [clear_of_mem hmem]
      exact nofun
    · rw [clear_of_notMem hmem]
      exact h.noBad v c hc hlt
  · rw [hu.link]
    exact (h.chain i).congr fun a ha => clear_of_notMem fun hmem => hr.apart i hmem ha
  · rw [hr.record hu]
    exact h.opened j
  · dsimp only
    rw [hr.load hu]
    exact h.entry j
  · obtain ⟨htaken, hnot⟩ := h.away j c q hlow hlt hq hsect
    refine ⟨?_, hnot⟩
    dsimp only
    rw [hu.link, clear_of_notMem fun hmem => ?_]
    · exact htaken
    · obtain ⟨d, hd, heq⟩ := List.mem_map.mp hmem
      have hhome : fs = L.home j := congrArg Prod.fst heq
      obtain rfl : d = c := congrArg Prod.snd heq
      subst hhome
      exact hr.entries j d hd q hq (by rw [hsect])

variable [DecidableEq ι]

/-- The records of the files that a call is not for. -/
theorem record_of_ne (hne : j ≠ i)
    (hload : (w.fil j).load (s'.buf.view (L.home j, L.dirSect j)) (L.dirPtr j) =
      (w.fil j).load (w.disk.buf.view (L.home j, L.dirSect j)) (L.dirPtr j)) :
    record L ⟨s', Function.update w.fil i fp'⟩ j = w.record L j := by
  rw [record, record]
  dsimp only
  rw [Function.update_of_ne hne, Fil.record, hload, Fil.record]

/-- A call for an open file. -/
theorem moved (h : Intact L chains w) (hopen : (w.fil i).fs ≠ none)
    (hm : Fil.Moved L.vol (L.home i) (chains i) cs' (w.fil i) fp' w.disk s') :
    Intact L (Function.update chains i cs') ⟨s', Function.update w.fil i fp'⟩ := by
  have hview := h.view_entry hm.effect
  have hfs : fp'.fs = (w.fil i).fs := by
    obtain ⟨_, _, _, _, _, _, _, heq⟩ := hm.kin
    rw [heq]
  have hcells : (fun j => cells (L.home j) (Function.update chains i cs' j)) =
      Function.update (fun j => cells (L.home j) (chains j)) i (cells (L.home i) cs') :=
    funext fun j => Function.apply_update (fun j cs => cells (L.home j) cs) chains i cs' j
  refine ⟨hm.effect.sound (h.chain i), fun v => hm.effect.noBad (h.chain i) (h.noBad v), ?_, fun j => ?_, fun j => ?_,
    fun j => ?_, fun j c q hlow hlt hq hsect => ?_⟩
  · rw [hcells]
    exact hm.effect.ledger h.ledger rfl
  · by_cases hji : j = i
    · subst hji
      have hrecord : record L ⟨s', Function.update w.fil j fp'⟩ j = fp' := by
        rw [record]
        dsimp only
        rw [Function.update_self, Fil.record, if_neg (hfs ▸ hopen)]
      rw [hrecord, Function.update_self]
      exact hm.opened
    · rw [record_of_ne hji (by rw [hview]), Function.update_of_ne hji]
      exact h.opened j
  · by_cases hji : j = i
    · subst hji
      obtain ⟨_, _, _, _, _, _, _, heq⟩ := hm.kin
      dsimp only
      rw [Function.update_self, heq]
      exact h.handle j
    · dsimp only
      rw [Function.update_of_ne hji]
      exact h.handle j
  · by_cases hji : j = i
    · subst hji
      dsimp only
      rw [Function.update_self, hview]
      intro _ hwritten
      obtain ⟨hold, hsize, hclust⟩ := hm.unwritten hwritten
      rw [hsize, hclust]
      exact h.entry j hopen hold
    · dsimp only
      rw [Function.update_of_ne hji, hview]
      exact h.entry j
  · obtain ⟨htaken, hnot⟩ := h.away j c q hlow hlt hq hsect
    have hnew := hm.effect.notMem_of_taken (h.chain i) htaken (hnot i)
    refine ⟨(hm.effect.link_other (h.chain i) hnew).symm ▸ htaken, fun k => ?_⟩
    by_cases hki : k = i
    · subst hki
      rwa [Function.update_self]
    · rw [Function.update_of_ne hki]
      exact hnot k

/-- A call that changes no chain, and the entry of its file at most. -/
theorem quiet (h : Intact L chains w) (hs : s'.Sound L.vol) (hlink : s'.link L.vol = w.disk.link L.vol)
    (hview : ∀ j ≠ i, (w.fil j).load (s'.buf.view (L.home j, L.dirSect j)) (L.dirPtr j) =
      (w.fil j).load (w.disk.buf.view (L.home j, L.dirSect j)) (L.dirPtr j))
    (hopened : (fp'.record (s'.buf.view (L.home i, L.dirSect i)) (L.dirPtr i)).Opened (L.vol (L.home i)) (chains i))
    (hhandle : fp'.fs ≠ none → fp'.fs = some (L.home i) ∧ fp'.error = false ∧ fp'.dirSect = L.dirSect i ∧
      fp'.dirPtr = L.dirPtr i)
    (hentry : fp'.fs ≠ none → fp'.written = false →
      let fp := fp'.load (s'.buf.view (L.home i, L.dirSect i)) (L.dirPtr i)
      fp.fsize = fp'.fsize ∧ fp.orgClust = fp'.orgClust) :
    Intact L chains ⟨s', Function.update w.fil i fp'⟩ := by
  refine ⟨hs, fun v c hc hlt => hlink ▸ h.noBad v c hc hlt, hlink ▸ h.ledger, fun j => ?_, fun j => ?_, fun j => ?_,
    fun j c q hlow hlt hq hsect => hlink ▸ h.away j c q hlow hlt hq hsect⟩
  all_goals by_cases hji : j = i
  · subst hji
    rw [record]
    dsimp only
    rw [Function.update_self]
    exact hopened
  · rw [record_of_ne hji (hview j hji)]
    exact h.opened j
  · subst hji
    dsimp only
    rw [Function.update_self]
    exact hhandle
  · dsimp only
    rw [Function.update_of_ne hji]
    exact h.handle j
  · subst hji
    dsimp only
    rw [Function.update_self]
    exact hentry
  · dsimp only
    rw [Function.update_of_ne hji, hview j hji]
    exact h.entry j

end Intact

end Session

end NoDiskEmu.Ff
