import NoDiskEmu.Menu.Browser
import NoDiskEmu.Library.Walk

/-! The buffers of `menu_browse_files`: where it runs to `reread` they are free again, and its indices are
in range as long as the directory fits into `ep` and the way down into the stacks. -/

namespace NoDiskEmu

open Library Library.Run Tally

namespace Table

variable {t : Table}

def freeBuffers (t : Table) : ℕ := tally t.count fun i => !(t.buffers i).allocated

theorem firstFree_eq_none_iff : t.firstFree = none ↔ t.freeBuffers = 0 := by
  have hsome : t.firstFree ≠ none ↔ t.freeBuffers ≠ 0 := by
    rw [freeBuffers, tally_ne_zero_iff, firstFree, Option.ne_none_iff_isSome, List.find?_isSome]
    exact exists_congr fun i => and_congr_left fun _ => List.mem_range
  exact not_iff_not.mp hsome

/-- A buffer that is taken. -/
theorem freeBuffers_set {i : ℕ} {b : Buffer} (hi : i < t.count)
    (hfree : (t.buffers i).allocated = false) (hb : b.allocated = true) :
    (t.set i b).freeBuffers + 1 = t.freeBuffers := by
  have hupdate := tally_update (f := fun j => !((t.set i b).buffers j).allocated)
    (g := fun j => !(t.buffers j).allocated) hi fun j _ hne => by rw [set_of_ne t b hne]
  rw [set_self, hfree, hb] at hupdate
  exact hupdate

end Table

namespace Channels

variable {b : Channels} {x i : ℕ}

theorem freeBuffers_takeSystem (hi : i < b.count) (hfree : (b.table.buffers i).allocated = false) :
    (b.takeSystem i).table.freeBuffers + 1 = b.table.freeBuffers :=
  Table.freeBuffers_set hi hfree rfl

theorem freeBuffers_linked {n start : ℕ} (m : ℕ) (hle : start + m ≤ b.count)
    (hfree : ∀ k < m, (b.table.buffers (start + k)).allocated = false) :
    ((List.range m).foldl (linkBuffer n start) b).table.freeBuffers + m = b.table.freeBuffers := by
  induction m with
  | zero => rfl
  | succ m ih =>
    have hrest := ih (by omega) fun k hk => hfree k (by omega)
    have hlinked := linked_foldl (n := n) m fun k hk => hfree k (Nat.lt_succ_of_lt hk)
    obtain ⟨hlast, -⟩ := hlinked.others (start + m) (by omega)
    have hlt : start + m < ((List.range m).foldl (linkBuffer n start) b).table.count :=
      Nat.lt_of_lt_of_eq (by omega) hlinked.count.symm
    have hnone : (((List.range m).foldl (linkBuffer n start) b).table.buffers (start + m)).allocated =
        false := by
      rw [hlast]
      exact hfree m (by omega)
    have hset := Table.freeBuffers_set hlt hnone
      (b := ⟨(((List.range m).foldl (linkBuffer n start) b).table.buffers (start + m)).data, 0, true,
        false, false⟩) rfl
    rw [List.range_succ, List.foldl_append, List.foldl_cons, List.foldl_nil, linkBuffer_eq hnone,
      Nat.add_comm m 1, ← Nat.add_assoc]
    exact (congrArg (· + m) hset).trans hrest

/-- A walk does not take a buffer. -/
theorem release_free (fuel x : ℕ) (h : (b.table.buffers i).allocated = false) :
    ((release fuel x b).table.buffers i).allocated = false := by
  obtain heq | heq := (release_frame fuel x b).2.2 i
  · rw [heq]
    exact h
  · rw [heq]

theorem freeBuffer_free (x : ℕ) (h : (b.table.buffers i).allocated = false) :
    ((b.freeBuffer x).table.buffers i).allocated = false := by
  by_contra hne
  have halloc : ((b.freeBuffer x).table.buffers i).allocated = true := by simpa using hne
  have heq : (b.freeBuffer x).table.buffers i = b.table.buffers i := Table.freeBuffer_allocated halloc
  rw [heq, h] at halloc
  exact Bool.noConfusion halloc

/-- A walk along the `next` pointers frees the buffers that it comes to. -/
theorem release_trail {fuel : ℕ} {l : List ℕ} (htrail : Walk.Trail (fun i => (b.chan i).next) (x :: l))
    (hfuel : l.length < fuel) : ∀ i ∈ x :: l, ((release fuel x b).table.buffers i).allocated = false := by
  induction l generalizing fuel x b with
  | nil =>
    obtain ⟨fuel, rfl⟩ : ∃ f, fuel = f + 1 := ⟨fuel - 1, by omega⟩
    intro i hi
    have hend : (b.chan x).next = none := htrail
    rw [List.mem_singleton.mp hi, release, hend]
    exact congrArg Buffer.allocated (b.table.set_self x _)
  | cons y l ih =>
    obtain ⟨fuel, rfl⟩ : ∃ f, fuel = f + 1 := ⟨fuel - 1, by omega⟩
    have hnext : (b.chan x).next = some y := htrail.1
    intro i hi
    rw [release, hnext]
    obtain rfl | hi := List.mem_cons.mp hi
    · exact release_free fuel y (congrArg Buffer.allocated (b.table.set_self i _))
    · exact ih (b := { b with table := b.table.set x { b.table.buffers x with allocated := false } })
        htrail.2 (Nat.lt_of_succ_lt_succ hfuel) i hi

/-- What the menu has allocated: `buf`, the table at `tbl` and the blocks of entries, each linked to the
next. -/
structure Holds (b : Channels) (buf tbl : ℕ) (blocks taken : List ℕ) : Prop where
  system : (b.table.buffers buf).allocated = true ∧ (b.table.buffers buf).secondary = BUFFER_SEC_SYSTEM
  system_mem : buf ∈ taken ∧ (buf < tbl ∨ tbl + CONFIG_DIR_BUFFERS ≤ buf)
  bound : tbl + CONFIG_DIR_BUFFERS ≤ b.count
  table : ∀ k < CONFIG_DIR_BUFFERS, (b.table.buffers (tbl + k)).allocated = true
  links : ∀ k, k + 1 < CONFIG_DIR_BUFFERS → (b.chan (tbl + k)).next = some (tbl + k + 1)
  trail : Walk.Trail (fun i => (b.chan i).next) blocks
  nodup : blocks.Nodup
  block : ∀ i ∈ blocks, i < b.count ∧ (b.table.buffers i).allocated = true ∧
    (i < tbl ∨ tbl + CONFIG_DIR_BUFFERS ≤ i) ∧ i ∈ taken
  taken : ∀ i ∈ taken, i = buf ∨ (tbl ≤ i ∧ i < tbl + CONFIG_DIR_BUFFERS) ∨ i ∈ blocks
  user : ∀ k < CONFIG_DIR_BUFFERS, (b.table.buffers (tbl + k)).secondary = 0
  own : ∀ i ∈ blocks, (b.table.buffers i).secondary = BUFFER_SEC_SYSTEM

variable {buf tbl cur : ℕ} {blocks taken : List ℕ}

/-- A message on the error channel. -/
theorem Holds.setError (h : b.Holds buf tbl blocks taken) (msg : List UInt8) :
    (b.setError msg).Holds buf tbl blocks taken where
  system := by
    obtain ⟨data, heq⟩ := b.setError_buffers msg buf
    rw [heq]
    exact h.system
  system_mem := h.system_mem
  bound := h.bound
  table k hk := (b.setError_allocated msg _).trans (h.table k hk)
  links k hk := (b.setError_next msg _).trans (h.links k hk)
  trail := h.trail.congr fun i _ => b.setError_next msg i
  nodup := h.nodup
  block i hi := by
    rw [setError_allocated]
    exact h.block i hi
  taken := h.taken
  user k hk := by
    obtain ⟨data, heq⟩ := b.setError_buffers msg (tbl + k)
    rw [heq]
    exact h.user k hk
  own i hi := by
    obtain ⟨data, heq⟩ := b.setError_buffers msg i
    rw [heq]
    exact h.own i hi

/-- A block in a buffer that was free, behind the last one. -/
theorem Holds.snoc (h : b.Holds buf tbl (blocks ++ [cur]) taken) (hi : i < b.count)
    (hfree : (b.table.buffers i).allocated = false) {c d : Chan} (hc : c.next = none)
    (hd : d.next = some i) :
    (((b.takeSystem i).setChan i c).setChan cur d).Holds buf tbl (blocks ++ [cur, i]) (i :: taken) := by
  have hne : ∀ j, (b.table.buffers j).allocated = true → j ≠ i := by
    rintro j hj rfl
    exact Bool.noConfusion (hfree.symm.trans hj)
  have hkeep : ∀ j ≠ i, (((b.takeSystem i).setChan i c).setChan cur d).table.buffers j =
      b.table.buffers j := fun j hj => Table.set_of_ne _ _ hj
  have hchan : ∀ j ≠ i, j ≠ cur → (((b.takeSystem i).setChan i c).setChan cur d).chan j = b.chan j := by
    intro j hj hjc
    rw [setChan_of_ne _ _ hjc, setChan_of_ne _ _ hj]
    exact setChan_of_ne _ _ hj
  have hcur : cur ∈ blocks ++ [cur] := List.mem_append_right _ List.mem_cons_self
  have hcuri : cur ≠ i := hne cur (h.block cur hcur).2.1
  have hout : ∀ k < CONFIG_DIR_BUFFERS, tbl + k ≠ i ∧ tbl + k ≠ cur := fun k hk =>
    ⟨hne _ (h.table k hk), fun heq => by have := (h.block cur hcur).2.2.1; omega⟩
  have happend : blocks ++ [cur, i] = (blocks ++ [cur]) ++ [i] := by
    rw [List.append_assoc]
    rfl
  have hmem : i ∉ blocks ++ [cur] := fun hin => hne i (h.block i hin).2.1 rfl
  have hlast : cur ∉ blocks := fun hin =>
    List.disjoint_of_nodup_append h.nodup hin List.mem_cons_self
  refine ⟨?_, ⟨List.mem_cons_of_mem i h.system_mem.1, h.system_mem.2⟩, h.bound, fun k hk => ?_,
    fun k hk => ?_, h.trail.snoc hlast (fun j hj => ?_) ?_ ?_, ?_, fun j hj => ?_, fun j hj => ?_,
    fun k hk => ?_, fun j hj => ?_⟩
  · rw [hkeep buf (hne buf h.system.1)]
    exact h.system
  · rw [hkeep _ (hout k hk).1]
    exact h.table k hk
  · rw [hchan _ (hout k (by omega)).1 (hout k (by omega)).2]
    exact h.links k hk
  · have hji := hne j (h.block j (List.mem_append_left _ hj)).2.1
    exact congrArg Chan.next (hchan j hji fun heq => hlast (heq ▸ hj))
  · rw [setChan_self]
    exact hd
  · rw [setChan_of_ne _ _ hcuri.symm, setChan_self]
    exact hc
  · rw [happend]
    exact List.nodup_append.mpr ⟨h.nodup, List.nodup_singleton i, fun x hx y hy heq =>
      hmem (List.mem_singleton.mp hy ▸ heq ▸ hx)⟩
  · rw [happend, List.mem_append, List.mem_singleton] at hj
    obtain hj | rfl := hj
    · obtain ⟨hlt, halloc, hapart, hin⟩ := h.block j hj
      refine ⟨hlt, ?_, hapart, List.mem_cons_of_mem i hin⟩
      rw [hkeep j (hne j halloc)]
      exact halloc
    · refine ⟨hi, congrArg Buffer.allocated (Table.set_self ..), ?_, List.mem_cons_self⟩
      by_contra hin
      have htable := h.table (j - tbl) (by omega)
      rw [Nat.add_sub_cancel' (by omega), hfree] at htable
      exact Bool.noConfusion htable
  · rw [happend, List.mem_append, List.mem_singleton]
    obtain rfl | hj := List.mem_cons.mp hj
    · exact .inr (.inr (.inr rfl))
    · obtain hj | hj | hj := h.taken j hj
      · exact .inl hj
      · exact .inr (.inl hj)
      · exact .inr (.inr (.inl hj))
  · rw [hkeep _ (hout k hk).1]
    exact h.user k hk
  · rw [happend, List.mem_append, List.mem_singleton] at hj
    obtain hj | rfl := hj
    · rw [hkeep j (hne j (h.block j hj).2.1)]
      exact h.own j hj
    · exact congrArg Buffer.secondary (Table.set_self ..)

/-- What the menu holds is guarded. -/
theorem Holds.guarded (h : b.Holds buf tbl blocks taken) : b.Guarded tbl CONFIG_DIR_BUFFERS taken where
  other i hi hout := by
    obtain rfl | hin | hin := h.taken i hi
    · exact h.system
    · unfold Outside at hout
      omega
    · exact ⟨(h.block i hin).2.1, h.own i hin⟩
  table k hk _ := .inl (h.user k hk)

/-- The code at `reread` frees what the menu holds. -/
theorem Holds.reread {b' : Channels} {first : ℕ} (h : b.Holds buf tbl (first :: blocks) taken)
    (hb' : b.Leaves tbl CONFIG_DIR_BUFFERS taken b') (save : ℕ) :
    ∀ i ∈ taken, ((b'.reread save buf tbl first).table.buffers i).allocated = false := by
  set b₁ := b'.freeBuffer buf
  set b₂ := release (b'.count + 1) tbl b₁ with hb₂
  set b₃ := release (b'.count + 1) first b₂ with hb₃
  have hchan₂ : b₂.chan = b'.chan := (release_frame (b'.count + 1) tbl b₁).2.1
  intro i hi
  show (b₃.table.buffers i).allocated = false
  obtain rfl | hin | hin := h.taken i hi
  · apply release_free
    apply release_free
    apply Table.freeBuffer_self
    rw [(hb'.other i h.system_mem.1 h.system_mem.2).2.1, h.system.2]
    decide
  · apply release_free
    have hbound := h.bound
    have hcount := hb'.count
    obtain hlinks | hvacant := hb'.freed
    · -- the table is as the menu has linked it
      have hrow := release_row (b := b₁) (x := tbl) (f := b'.count + 1) CONFIG_DIR_BUFFERS
        (by omega) (fun k hk => (hlinks k (by omega)).trans (h.links k hk))
        (k := i - tbl) (by omega)
      rwa [Nat.add_sub_cancel' hin.1] at hrow
    · by_cases hhead : i = tbl
      · subst hhead
        exact release_row (b := b₁) (x := i) (f := b'.count + 1) 1 (by omega)
          (fun k hk => absurd hk (by omega)) (k := 0) (by omega)
      · apply release_free
        apply freeBuffer_free
        by_contra halloc
        have hhead' := (hvacant (i - tbl) (by omega) (by simpa [Nat.add_sub_cancel' hin.1] using halloc)).1
        omega
  · have htrail : Walk.Trail (fun i => (b₂.chan i).next) (first :: blocks) :=
      h.trail.congr fun j hj => by
        rw [hchan₂]
        exact (hb'.other j (h.block j hj).2.2.2 (h.block j hj).2.2.1).2.2
    have hlength : (first :: blocks).length ≤ b.count := by
      have hsub : List.Subperm (first :: blocks) (List.range b.count) := h.nodup.subperm fun j hj =>
        List.mem_range.mpr (h.block j hj).1
      rw [← List.length_range (n := b.count)]
      exact hsub.length_le
    refine release_trail htrail ?_ i hin
    rw [hb'.count]
    rw [List.length_cons] at hlength
    omega

end Channels

namespace Reader

variable {r : Reader} {buf tbl first : ℕ} {blocks : List ℕ}

/-- The entries that were read fill `blocks` and a part of the current one. -/
structure Fills (r : Reader) (buf tbl first : ℕ) (blocks : List ℕ) : Prop where
  holds : r.channels.Holds buf tbl (blocks ++ [r.bufCur]) r.taken
  head : (blocks ++ [r.bufCur]).head? = some first
  entries : r.entries = ENTRIES_PER_BLOCK * blocks.length + r.entryNum
  entryNum_le : r.entryNum ≤ ENTRIES_PER_BLOCK

/-- `n` more entries fit into `ep`, or there are no buffers for more than fit. -/
def Fits (r : Reader) (blocks : List ℕ) (n : ℕ) : Prop :=
  r.entries + n ≤ EP_SIZE ∨ r.channels.table.freeBuffers + blocks.length < CONFIG_DIR_BUFFERS

theorem Fills.entries_le (h : r.Fills buf tbl first blocks) {n : ℕ} (hfits : r.Fits blocks n) :
    r.entries ≤ EP_SIZE := by
  have hentries := h.entries
  have hle := h.entryNum_le
  have hblock : ENTRIES_PER_BLOCK = 13 := rfl
  have hdir : CONFIG_DIR_BUFFERS = 2 := rfl
  have hsize : EP_SIZE = 26 := rfl
  rw [hblock] at hentries hle
  obtain hfits | hfits := hfits
  · omega
  · omega

theorem Fills.store (h : r.Fills buf tbl first blocks) {n : ℕ} (hfits : r.Fits blocks (n + 1)) :
    r.store = none ∨ r.entries < EP_SIZE ∧ ∃ r' blocks', r.store = some r' ∧
      r'.Fills buf tbl first blocks' ∧ r'.Fits blocks' n := by
  have hentries := h.entries
  have hle := h.entryNum_le
  have hblock : ENTRIES_PER_BLOCK = 13 := rfl
  have hdir : CONFIG_DIR_BUFFERS = 2 := rfl
  have hsize : EP_SIZE = 26 := rfl
  rw [hblock] at hentries hle
  rw [Reader.Fits] at hfits
  rw [Reader.store]
  split
  · next hfull =>
    rw [hblock] at hfull
    obtain heq | ⟨i, hi, hfree, heq⟩ := Channels.allocSystemBuffer_cases r.channels
    · rw [heq]
      exact .inl rfl
    · rw [heq]
      have htaken := Channels.freeBuffers_takeSystem hi hfree
      have hhead : (blocks ++ [r.bufCur] ++ [i]).head? = some first := by
        rw [List.head?_append, h.head]
        rfl
      refine .inr ⟨by omega, _, blocks ++ [r.bufCur], rfl, ⟨?_, hhead, ?_, ?_⟩, ?_⟩
      · rw [List.append_assoc]
        exact h.holds.snoc hi hfree rfl rfl
      · rw [List.length_append, List.length_singleton, hblock]
        dsimp only
        omega
      · rw [hblock]
        exact Nat.one_le_iff_ne_zero.mpr (by decide)
      · rw [Reader.Fits, List.length_append, List.length_singleton]
        dsimp only [Channels.setChan_table]
        omega
  · next hroom =>
    rw [hblock] at hroom
    refine .inr ⟨by omega, _, blocks, rfl, ⟨h.holds, h.head, ?_, ?_⟩, ?_⟩
    · rw [hblock]
      dsimp only
      omega
    · rw [hblock]
      dsimp only
      omega
    · rw [Reader.Fits]
      dsimp only
      omega

/-- The directory is read into `ep` and into the blocks that the menu holds. -/
theorem Fills.read {n : ℕ} (h : r.Fills buf tbl first blocks) (hfits : r.Fits blocks n) :
    (∀ a ∈ (Reader.read n r).1, a.Ok) ∧ (Reader.read n r).2.2.entries ≤ EP_SIZE ∧
      ∃ blocks', (Reader.read n r).2.2.Fills buf tbl first blocks' := by
  induction n generalizing r blocks with
  | zero =>
    exact ⟨fun a ha => absurd ha List.not_mem_nil, h.entries_le hfits, blocks, h⟩
  | succ n ih =>
    rw [Reader.read]
    obtain heq | ⟨hlt, r', blocks', heq, h', hfits'⟩ := h.store hfits
    · rw [heq]
      exact ⟨fun a ha => absurd ha List.not_mem_nil, h.entries_le hfits, blocks,
        h.holds.setError _, h.head, h.entries, h.entryNum_le⟩
    · rw [heq]
      obtain ⟨hok, hrest⟩ := ih h' hfits'
      refine ⟨fun a ha => ?_, hrest⟩
      obtain rfl | ha := List.mem_cons.mp ha
      · exact hlt
      · exact hok a ha

end Reader

namespace Channels

variable {b : Channels} {buf tbl first : ℕ}

/-- `buf`, the table and the first block, each in buffers that were free before. -/
theorem holds_first (hrun : FreeRun (b.takeSystem buf).table CONFIG_DIR_BUFFERS tbl)
    (hbound : tbl + CONFIG_DIR_BUFFERS ≤ b.count) {b' : Channels}
    (hb' : b' = (List.range CONFIG_DIR_BUFFERS).foldl (linkBuffer CONFIG_DIR_BUFFERS tbl)
      (b.takeSystem buf)) (hlt : first < b'.count) (hfree : (b'.table.buffers first).allocated = false) :
    (b'.takeSystem first).Holds buf tbl [first] (first :: buf :: List.range' tbl CONFIG_DIR_BUFFERS) := by
  have hlinked : (b.takeSystem buf).Linked CONFIG_DIR_BUFFERS tbl CONFIG_DIR_BUFFERS b' :=
    hb' ▸ linked_foldl CONFIG_DIR_BUFFERS hrun
  have hself : (b.takeSystem buf).table.buffers buf =
      ⟨(b.table.buffers buf).data, BUFFER_SEC_SYSTEM, true, false, false⟩ := Table.set_self ..
  have hapart : buf < tbl ∨ tbl + CONFIG_DIR_BUFFERS ≤ buf := by
    by_contra hin
    have hmem := hrun (buf - tbl) (by omega)
    rw [Nat.add_sub_cancel' (by omega), hself] at hmem
    exact Bool.noConfusion hmem
  have hbuf : b'.table.buffers buf =
      ⟨(b.table.buffers buf).data, BUFFER_SEC_SYSTEM, true, false, false⟩ :=
    (hlinked.others buf hapart).1.trans hself
  have hne : ∀ j, (b'.table.buffers j).allocated = true → j ≠ first := by
    rintro j hj rfl
    exact Bool.noConfusion (hfree.symm.trans hj)
  have htable : ∀ k < CONFIG_DIR_BUFFERS, (b'.table.buffers (tbl + k)).allocated = true :=
    fun k hk => congrArg Buffer.allocated (hlinked.buffer k hk)
  have hkeep : ∀ j ≠ first, (b'.takeSystem first).table.buffers j = b'.table.buffers j :=
    fun j hj => Table.set_of_ne _ _ hj
  refine ⟨?_, ⟨by simp, hapart⟩, hlinked.count ▸ hbound, fun k hk => ?_, fun k hk => ?_, ?_,
    List.nodup_singleton first, fun i hi => ?_, fun i hi => ?_, fun k hk => ?_, fun i hi => ?_⟩
  · rw [hkeep buf (hne buf (congrArg Buffer.allocated hbuf)), hbuf]
    exact ⟨rfl, rfl⟩
  · rw [hkeep _ (hne _ (htable k hk))]
    exact htable k hk
  · have hchan : (b'.takeSystem first).chan (tbl + k) = b'.chan (tbl + k) :=
      setChan_of_ne _ _ (hne _ (htable k (by omega)))
    rw [hchan, hlinked.chan k (by omega), if_pos hk]
  · exact congrArg Chan.next (setChan_self _ first Chan.cleared)
  · obtain rfl := List.mem_singleton.mp hi
    refine ⟨hlt, congrArg Buffer.allocated (Table.set_self ..), ?_, List.mem_cons_self⟩
    by_contra hin
    have halloc := htable (i - tbl) (by omega)
    rw [Nat.add_sub_cancel' (by omega), hfree] at halloc
    exact Bool.noConfusion halloc
  · obtain rfl | hi := List.mem_cons.mp hi
    · exact .inr (.inr List.mem_cons_self)
    · obtain rfl | hi := List.mem_cons.mp hi
      · exact .inl rfl
      · have hrange := List.mem_range'_1.mp hi
        exact .inr (.inl hrange)
  · rw [hkeep _ (hne _ (htable k hk))]
    exact congrArg Buffer.secondary (hlinked.buffer k hk)
  · rw [List.mem_singleton.mp hi]
    exact congrArg Buffer.secondary (Table.set_self ..)

end Channels

namespace Browser

variable {v : Browser}

/-- There is no buffer, or room for all that a directory needs: for `buf`, the table and a block, and
for no more entries than `ep` has elements. -/
def RoomToRead (t : Table) (d : Directory) : Prop :=
  t.freeBuffers = 0 ∨
    (CONFIG_DIR_BUFFERS + 2 ≤ t.freeBuffers ∧
      (∃ start i, i < start ∧ (t.buffers i).allocated = false ∧ start + CONFIG_DIR_BUFFERS ≤ t.count ∧
        Channels.FreeRun t CONFIG_DIR_BUFFERS start) ∧
      d.opendirFails = false ∧
      (d.entries ≤ EP_SIZE ∨ t.freeBuffers < 2 * CONFIG_DIR_BUFFERS + 2))

/-- The directory has room. The key is not the one up from the first line of an empty directory, the
callbacks of the buffers that a command closes spare those of the menu, and nothing is entered from the
last place of the stacks. -/
def Fits (v : Browser) : MenuEvent → Prop
  | .read d => v.mode = .start → RoomToRead v.channels.table d
  | .key k cd => v.mode = .keys →
    ¬(k = .prev ∧ v.mp = 0 ∧ v.entries = 0 ∧ v.action = false) ∧
      ((v.press k).1 = true →
        ((v.press k).2.choice = .parent ∨ (v.press k).2.choice = .enter →
          cd.Spares v.channels v.bufTbl CONFIG_DIR_BUFFERS v.taken) ∧
        ((v.press k).2.choice = .enter → (cd.run v.channels).1 = false → v.posStack + 1 < MAX_LASTPOS))

/-- Outside its loops the function has no buffer of its own. -/
def Released (v : Browser) : Prop :=
  v.mode ≠ .keys → ∀ i ∈ v.taken, (v.channels.table.buffers i).allocated = false

/-- The stacks hold cursors, and while keys are waited for the menu holds its buffers. -/
structure Intact (v : Browser) : Prop where
  posStack : v.posStack < MAX_LASTPOS
  stackMp : ∀ k, v.stackMp k ≤ EP_SIZE + 1
  released : v.Released
  keys : v.mode = .keys → v.OnDisplay ∧
    ∃ blocks, v.channels.Holds v.buf v.bufTbl (v.firstBuf :: blocks) v.taken

theorem reread_mode (v : Browser) (cleanup : Bool) : (v.reread cleanup).mode ≠ .keys := by
  rw [reread]
  dsimp only
  split <;> split <;> exact MenuMode.noConfusion

/-- The way through `reread`. -/
theorem intact_reread {b : Channels} {blocks : List ℕ} (hpos : v.posStack < MAX_LASTPOS)
    (hstack : ∀ k, v.stackMp k ≤ EP_SIZE + 1) (h : b.Holds v.buf v.bufTbl (v.firstBuf :: blocks) v.taken)
    (hb : b.Leaves v.bufTbl CONFIG_DIR_BUFFERS v.taken v.channels) (cleanup : Bool) : (v.reread cleanup).Intact where
  posStack := hpos
  stackMp := hstack
  released _ := h.reread hb v.saveActiveBuffers
  keys hkeys := absurd hkeys (v.reread_mode cleanup)

/-- The way through `reread` behind a `CD` command, with the stacks that it leaves. -/
theorem intact_command {cd : Cd} {blocks : List ℕ} {stackMp stackMy : ℕ → ℕ} {posStack : ℕ}
    (hpos : posStack < MAX_LASTPOS) (hstack : ∀ k, stackMp k ≤ EP_SIZE + 1)
    (h : v.channels.Holds v.buf v.bufTbl (v.firstBuf :: blocks) v.taken)
    (hb : v.channels.Leaves v.bufTbl CONFIG_DIR_BUFFERS v.taken (v.afterCd cd).channels) (cleanup : Bool) :
    (reread { v.afterCd cd with stackMp, stackMy, posStack } cleanup).Intact :=
  intact_reread (v := { v.afterCd cd with stackMp, stackMy, posStack }) hpos hstack h hb cleanup

theorem update_stack_le {x : ℕ} (hstack : ∀ k, v.stackMp k ≤ EP_SIZE + 1) (hx : x ≤ EP_SIZE + 1)
    (k : ℕ) : Function.update v.stackMp v.posStack x k ≤ EP_SIZE + 1 := by
  by_cases hk : k = v.posStack
  · rw [hk, Function.update_self]
    exact hx
  · rw [Function.update_of_ne hk]
    exact hstack k

theorem intact_showEntries {blocks : List ℕ} (hpos : v.posStack < MAX_LASTPOS)
    (hstack : ∀ k, v.stackMp k ≤ EP_SIZE + 1) (hentries : v.entries ≤ EP_SIZE)
    (h : v.channels.Holds v.buf v.bufTbl (v.firstBuf :: blocks) v.taken) :
    (∀ a ∈ v.showEntries.1, a.Ok) ∧ v.showEntries.2.Intact := by
  obtain ⟨hok, heq, hdisplay⟩ := showEntries_ok hentries hpos (hstack v.posStack)
  refine ⟨hok, ?_⟩
  rw [heq] at hdisplay ⊢
  exact ⟨hpos, hstack, fun hne => absurd rfl hne, fun _ => ⟨hdisplay, blocks, h⟩⟩

/-- The entries are read, and either the keys are waited for or all buffers are free. -/
theorem intact_readEntries {d : Directory} (hpos : v.posStack < MAX_LASTPOS)
    (hstack : ∀ k, v.stackMp k ≤ EP_SIZE + 1)
    (h : v.channels.Holds v.buf v.bufTbl [v.firstBuf] v.taken)
    (hfits : Reader.Fits ⟨v.channels, v.taken, v.firstBuf, 0, 0⟩ [] d.entries) :
    (∀ a ∈ (v.readEntries d).1, a.Ok) ∧ (v.readEntries d).2.Intact := by
  have hfills : Reader.Fills ⟨v.channels, v.taken, v.firstBuf, 0, 0⟩ v.buf v.bufTbl v.firstBuf [] :=
    ⟨h, rfl, rfl, Nat.zero_le _⟩
  obtain ⟨hok, hle, blocks, hread⟩ := hfills.read hfits
  obtain ⟨rest, hblocks⟩ := List.head?_eq_some_iff.mp hread.head
  have hholds := hread.holds
  rw [hblocks] at hholds
  set r := (Reader.read d.entries ⟨v.channels, v.taken, v.firstBuf, 0, 0⟩).2.2
  obtain ⟨hshown, hintact⟩ := intact_showEntries
    (v := { v with channels := r.channels, taken := r.taken, entries := r.entries,
                   enterable := d.enterable }) hpos hstack hle hholds
  have hreread := intact_reread
    (v := { v with channels := r.channels, taken := r.taken, entries := r.entries,
                   enterable := d.enterable }) hpos hstack hholds (Channels.Leaves.refl ..) true
  rw [Browser.readEntries]
  dsimp only
  split
  · refine ⟨fun a ha => ?_, hintact⟩
    obtain ha | ha := List.mem_append.mp ha
    · exact hok a ha
    · exact hshown a ha
  · exact ⟨hok, hreread⟩

/-- The directory is read, and either the keys are waited for or all buffers are free. -/
theorem Intact.start (h : v.Intact) {d : Directory} (hd : RoomToRead v.channels.table d) :
    (∀ a ∈ (v.start d).1, a.Ok) ∧ (v.start d).2.Intact := by
  set b := v.channels with hb
  have hdir : CONFIG_DIR_BUFFERS = 2 := rfl
  rw [Browser.start, ← hb]
  obtain ⟨-, heq⟩ | ⟨buf, hbuf, heq⟩ := b.allocSystemBuffer_first
  · rw [heq]
    exact ⟨fun a ha => absurd ha List.not_mem_nil, h.posStack, h.stackMp,
      fun _ i hi => absurd hi List.not_mem_nil, MenuMode.noConfusion⟩
  obtain ⟨hlt, hfree⟩ := Table.firstFree_spec hbuf
  have hcount := Channels.freeBuffers_takeSystem hlt hfree
  obtain hzero | ⟨hroom, ⟨s, j, hjs, hjfree, hs, hrun⟩, hopen, hentries⟩ := hd
  · omega
  rw [heq]
  dsimp only
  have hrest : Channels.FreeRun (b.takeSystem buf).table CONFIG_DIR_BUFFERS s := by
    intro k hk
    have hle := Table.firstFree_le hbuf hjfree
    have hne : s + k ≠ buf := by omega
    exact (congrArg Buffer.allocated (Table.set_of_ne _ _ hne)).trans (hrun k hk)
  obtain ⟨-, hnone⟩ | ⟨tbl, htbl, htblfree, -, heq⟩ :=
    (b.takeSystem buf).allocLinkedBuffers_first (n := CONFIG_DIR_BUFFERS) (by decide)
  · exact absurd hrest (hnone s hs)
  rw [heq]
  dsimp only
  set b' := (List.range CONFIG_DIR_BUFFERS).foldl (Channels.linkBuffer CONFIG_DIR_BUFFERS tbl)
    (b.takeSystem buf) with hb'
  have hcount' : b'.table.freeBuffers + CONFIG_DIR_BUFFERS = (b.takeSystem buf).table.freeBuffers :=
    Channels.freeBuffers_linked CONFIG_DIR_BUFFERS htbl htblfree
  obtain ⟨hnone, -⟩ | ⟨first, hfirst, heq⟩ := b'.allocSystemBuffer_first
  · rw [Table.firstFree_eq_none_iff] at hnone
    omega
  obtain ⟨hlt', hfree'⟩ := Table.firstFree_spec hfirst
  have hcount'' := Channels.freeBuffers_takeSystem hlt' hfree'
  rw [heq]
  dsimp only
  rw [hopen, if_neg Bool.false_ne_true]
  refine intact_readEntries h.posStack h.stackMp
    (Channels.holds_first htblfree htbl hb' hlt' hfree') ?_
  rw [Reader.Fits, List.length_nil]
  dsimp only
  omega

/-- What the outer loop does at the cursor. -/
theorem intact_act {cd : Cd} {blocks : List ℕ} (hpos : v.posStack < MAX_LASTPOS)
    (hstack : ∀ k, v.stackMp k ≤ EP_SIZE + 1) (hmp : v.mp ≤ EP_SIZE + 1) (hmode : v.mode = .keys)
    (hdisplay : v.choice = .redraw ∨ v.choice = .file → v.OnDisplay)
    (h : v.channels.Holds v.buf v.bufTbl (v.firstBuf :: blocks) v.taken)
    (hleaves : v.choice = .parent ∨ v.choice = .enter →
      v.channels.Leaves v.bufTbl CONFIG_DIR_BUFFERS v.taken (v.afterCd cd).channels)
    (hroom : v.choice = .enter → (cd.run v.channels).1 = false → v.posStack + 1 < MAX_LASTPOS) :
    (∀ a ∈ (v.act cd).1, a.Ok) ∧ (v.act cd).2.Intact := by
  have hep : (Lookup.ep (v.mp - DIRNAV_OFFSET)).Ok := by
    have hsize : EP_SIZE = 26 := rfl
    have hoffset : DIRNAV_OFFSET = 2 := rfl
    show v.mp - DIRNAV_OFFSET < EP_SIZE
    omega
  have hkeys : v.OnDisplay → v.Intact := fun hon =>
    ⟨hpos, hstack, fun hne => absurd hmode hne, fun _ => ⟨hon, blocks, h⟩⟩
  rw [act]
  cases hchoice : v.choice with
  | redraw =>
    have hon := hdisplay (.inl hchoice)
    obtain ⟨hok, heq⟩ := hon.draw
    exact ⟨hok, heq.symm ▸ hkeys hon⟩
  | abort =>
    exact ⟨fun a ha => absurd ha List.not_mem_nil,
      intact_reread hpos hstack h (Channels.Leaves.refl ..) true⟩
  | parent =>
    refine ⟨fun a ha => List.mem_singleton.mp ha ▸ hpos, ?_⟩
    exact intact_command (Nat.lt_of_le_of_lt (Nat.sub_le _ 1) hpos)
      (update_stack_le hstack (Nat.zero_le _)) h (hleaves (.inl hchoice)) _
  | file =>
    have hon := hdisplay (.inr hchoice)
    obtain ⟨hok, heq⟩ := hon.draw
    refine ⟨fun a ha => ?_, heq.symm ▸ hkeys hon⟩
    obtain rfl | ha := List.mem_cons.mp ha
    · exact hep
    · exact hok a ha
  | enter =>
    have hb := hleaves (.inr hchoice)
    dsimp only
    cases hfailed : (cd.run v.channels).1 with
    | true =>
      exact ⟨fun a ha => List.mem_singleton.mp ha ▸ hep, intact_command hpos hstack h hb true⟩
    | false =>
      rw [if_neg Bool.false_ne_true, if_pos hpos]
      refine ⟨fun a ha => ?_,
        intact_command (hroom hchoice hfailed) (update_stack_le hstack hmp) h hb false⟩
      obtain rfl | ha := List.mem_cons.mp ha
      · exact hep
      · exact List.mem_singleton.mp ha ▸ hpos

/-- One event: the indices that are used are in range, and the menu stays intact. -/
theorem Intact.step (h : v.Intact) {e : MenuEvent} (he : v.Fits e) :
    (∀ a ∈ (v.step e).1, a.Ok) ∧ (v.step e).2.Intact := by
  cases e with
  | read d =>
    rw [Browser.step]
    split
    · next hmode => exact h.start (he hmode)
    · exact ⟨fun a ha => absurd ha List.not_mem_nil, h⟩
  | key k cd =>
    rw [Browser.step]
    split
    · next hmode =>
      obtain ⟨hon, blocks, hholds⟩ := h.keys hmode
      obtain ⟨hempty, hact⟩ := he hmode
      have hdisplay : (v.press k).2.OnDisplay ∨
          (v.press k).1 = true ∧ (v.press k).2.mp = 1 ∧ (v.press k).2.choice = .parent := by
        by_cases hk : k = .prev ∧ v.mp = 0 ∧ v.entries = 0
        · obtain ⟨rfl, hmp, hentries⟩ := hk
          refine .inr (press_prev_empty hmp hentries ?_)
          by_contra hfalse
          exact hempty ⟨rfl, hmp, hentries, by simpa using hfalse⟩
        · exact .inl (hon.press hk)
      obtain ⟨mp, my, action, hframe⟩ := v.press_frame k
      dsimp only
      rw [hframe] at hact hdisplay ⊢
      split
      · next hleft =>
        obtain ⟨hspares, hroom⟩ := hact hleft
        have hleaves := fun hchoice => hholds.guarded.cd hholds.bound (hspares hchoice)
        obtain hon | ⟨-, hone, hparent⟩ := hdisplay
        · exact intact_act (v := { v with mp, my, action }) h.posStack h.stackMp hon.mp_le hmode
            (fun _ => hon) hholds hleaves hroom
        · refine intact_act (v := { v with mp, my, action }) h.posStack h.stackMp
            (hone.trans_le (Nat.le_add_left 1 _)) hmode (fun hchoice => ?_) hholds hleaves hroom
          rw [hparent] at hchoice
          obtain hchoice | hchoice := hchoice <;> exact Choice.noConfusion hchoice
      · next hstay =>
        have hon := hdisplay.resolve_right fun hleft => hstay hleft.1
        exact ⟨fun a ha => absurd ha List.not_mem_nil, h.posStack, h.stackMp,
          fun hne => absurd hmode hne, fun _ => ⟨hon, blocks, hholds⟩⟩
    · exact ⟨fun a ha => absurd ha List.not_mem_nil, h⟩

theorem intact_menuBrowser (b : Channels) : (menuBrowser b).Intact where
  posStack := Nat.zero_lt_succ _
  stackMp _ := Nat.zero_le _
  released _ _ hi := absurd hi List.not_mem_nil
  keys hkeys := absurd hkeys MenuMode.noConfusion

end Browser

/-- In a run whose events fit, `menu_browse_files` keeps to the elements of its arrays and of the
directory, and wherever it returns all buffers that it has allocated are free. -/
theorem menuBrowseFiles_safe (b : Channels) {es : List MenuEvent}
    (h : Meets Browser.step Browser.Fits (menuBrowser b) es) :
    (∀ accesses ∈ (run Browser.step (menuBrowser b) es).1, ∀ a ∈ accesses, a.Ok) ∧
      Always Browser.step Browser.Released (menuBrowser b) es := by
  have hstep := fun v e (hv : Browser.Intact v) (he : v.Fits e) => hv.step he
  have hintact := Browser.intact_menuBrowser b
  exact ⟨h.results hstep hintact,
    (always_of_step (fun v e hv he => (hstep v e hv he).2) hintact h).mono fun v hv => hv.released⟩

/-- The first of two entries is an image, and entered: the BAM buffer gets the place of the table. -/
theorem menuBrowseFiles_safe_enter :
    Always Browser.step Browser.Released (menuBrowser (buffersInit 32))
      [.read ⟨false, 2, fun i => i == 0⟩, .key .next ⟨.directory, none⟩, .key .next ⟨.directory, none⟩,
        .key .sel ⟨.mount (fun _ => (false, [])) true, none⟩] := by
  refine (menuBrowseFiles_safe (buffersInit 32) ?_).2
  refine ⟨fun _ => ?_, fun _ => ?_, fun _ => ?_, fun _ => ?_, trivial⟩
  · refine .inr ⟨by decide, ⟨1, 0, by decide, rfl, by decide, fun k hk => ?_⟩, rfl, .inl (by decide)⟩
    have hk : k < 2 := hk
    interval_cases k <;> rfl
  · exact ⟨fun h => Key.noConfusion h.1, fun h => absurd h (by decide)⟩
  · exact ⟨fun h => Key.noConfusion h.1, fun h => absurd h (by decide)⟩
  · exact ⟨fun h => Key.noConfusion h.1, fun _ => ⟨fun _ => sweepMeets_of_forall
      (fun _ b => Channels.Spares.refl b _ _ _) _ _ _, fun _ _ => by decide⟩⟩

/-- The directory is not there. -/
theorem not_menuBrowseFiles_safe : ¬∀ (b : Channels) (es : List MenuEvent),
    (∀ accesses ∈ (run Browser.step (menuBrowser b) es).1, ∀ a ∈ accesses, a.Ok) ∧
      Always Browser.step Browser.Released (menuBrowser b) es := by
  intro h
  have hlast := (h (buffersInit 32) [.read ⟨true, 0, fun _ => false⟩]).2.last
  have hfree := hlast (by decide) 0 (by decide)
  exact absurd hfree (by decide)

end NoDiskEmu
