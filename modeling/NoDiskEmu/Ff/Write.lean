import NoDiskEmu.Ff.Read

/-! How `f_write` changes the contents of a file. Writes of 512 bytes or more go past the buffer for whole
sectors; no caller has that many. -/

namespace NoDiskEmu.Ff

open Library Library.Chain Library.WriteBack Fat

section Sectors

variable {vol : ℕ → Volume} {fs : ℕ} {cs : List ℕ} {s : Disk}

/-- Different sectors of a file are different sectors of its volume. -/
theorem sector_inj (hchain : IsChain (s.link vol) (cells fs cs)) {n m : ℕ} (hn : n < cs.length * (vol fs).csize)
    (hm : m < cs.length * (vol fs).csize) (h : (vol fs).sector cs n = (vol fs).sector cs m) : n = m := by
  obtain ⟨k, c, q, hk, hq, rfl⟩ := exists_sector hn
  obtain ⟨k', c', q', hk', hq', rfl⟩ := exists_sector hm
  rw [sector_eq hk hq, sector_eq hk' hq'] at h
  obtain ⟨rfl, rfl⟩ := clust2sect_inj (Disk.cluster_range hchain (List.mem_of_getElem? hk))
    (Disk.cluster_range hchain (List.mem_of_getElem? hk')) hq hq' h
  have hnodup : cs.Nodup := hchain.nodup.of_map _
  obtain ⟨hlt, -⟩ := List.getElem?_eq_some_iff.mp hk
  rw [(List.getElem?_inj hlt hnodup).mp (hk.trans hk'.symm)]

end Sectors

namespace Fil

open NoDiskEmu.Ff.Disk

/-- The chain of a file that was written up to its end could not go on: the volume was full. -/
def Spent (v : Volume) (cs : List ℕ) (fp : Fil) : Prop :=
  fp.csect = 0 ∧ ({ fp with csect := 1 } : Fil).Placed v cs ∧ fp.fptr = 512 * (cs.length * v.csize)

/-- Only where the file stands differs, and the first cluster, which is that of `cs`. -/
def Extended (cs : List ℕ) (fp fp' : Fil) : Prop :=
  ∃ csect currClust currSect, fp' = { fp with orgClust := cs.headD 0, csect, currClust, currSect }

variable {vol : ℕ → Volume} {fs : ℕ} {cs : List ℕ} {s : Disk} {fp : Fil}

/-- The volume has no free cluster. -/
def Full (vol : ℕ → Volume) (fs : ℕ) (s : Disk) : Prop :=
  ∀ c, 2 ≤ c → c < (vol fs).maxClust → s.link vol (fs, c) ≠ .free

/-- The sectors behind the FATs have the same contents. -/
def KeepsData (vol : ℕ → Volume) (s s' : Disk) : Prop :=
  ∀ a, (vol a.1).fatbase + (vol a.1).nFats * (vol a.1).sectsFat ≤ a.2 → s'.buf.view a = s.buf.view a

theorem headD_append {c : ℕ} (h : cs ≠ []) : (cs ++ [c]).headD 0 = cs.headD 0 := by
  cases cs with
  | nil => exact absurd rfl h
  | cons d cs => rfl

theorem writeSector_spec (hs : s.Sound vol) (hchain : IsChain (s.link vol) (cells fs cs)) (hbad : s.NoBad vol fs)
    (hplaced : fp.Placed (vol fs) cs) (hmod : fp.fptr % 512 = 0) (horg : fp.orgClust = cs.headD 0)
    (hroom : fp.fptr ≤ 512 * (cs.length * (vol fs).csize)) :
    let r := fp.writeSector vol fs s
    (r.1 = .error ∧ ¬s.Healthy vol) ∨
      (r.1 = .full ∧ r.2.1 = { fp with csect := 0 } ∧ r.2.1.Spent (vol fs) cs ∧
        Relinked vol (s.link vol) s r.2.2 ∧ Full vol fs s) ∨
      (r.1 = .go ∧ ∃ cs', Effect vol fs cs s cs' r.2.2 ∧ KeepsData vol s r.2.2 ∧ r.2.1.Facing (vol fs) cs' ∧
        fp.Extended cs' r.2.1) := by
  rw [writeSector]
  dsimp only
  obtain ⟨hcsect, hfacing⟩ | ⟨hcsect, hcluster⟩ := hplaced.boundary hmod
  · rw [if_pos hcsect]
    obtain ⟨hno, hsick⟩ | ⟨hok, hfp, hmove, -⟩ := moveTo_spec hs fp.decSect fs (fp.decSect.currSect + 1)
    · rw [if_neg (by rw [hno]; exact Bool.noConfusion)]
      exact .inl ⟨rfl, hsick⟩
    · rw [if_pos hok, hfp]
      refine .inr (.inr ⟨rfl, cs, (Effect.refl hs).quiet hmove, hmove.data, hfacing, ?_⟩)
      exact ⟨_, _, _, by rw [← horg]; rfl⟩
  · rw [if_neg (not_not.mpr hcsect), decSect_fptr, decSect_orgClust, decSect_currClust]
    -- the file goes on with cluster `k` of the chain `cs'`
    have hnext : ∀ (cs' : List ℕ) (k c : ℕ) (fp' : Fil) (t : Disk), cs'[k]? = some c →
        fp.fptr = 512 * (k * (vol fs).csize) → Effect vol fs cs s cs' t → KeepsData vol s t →
        fp' = { fp.decSect with orgClust := cs'.headD 0 } →
        let m := (fp'.enter (vol fs) c).moveTo vol fs t ((vol fs).clust2sect c)
        let r := ((if m.1 then Turn.go else .error), m.2)
        (r.1 = .error ∧ ¬s.Healthy vol) ∨
          (r.1 = .full ∧ r.2.1 = { fp with csect := 0 } ∧ r.2.1.Spent (vol fs) cs ∧
            Relinked vol (s.link vol) s r.2.2 ∧ Full vol fs s) ∨
          (r.1 = .go ∧ ∃ cs', Effect vol fs cs s cs' r.2.2 ∧ KeepsData vol s r.2.2 ∧ r.2.1.Facing (vol fs) cs' ∧
            fp.Extended cs' r.2.1) := by
      rintro cs' k c fp' t hk hptr ht hkeep rfl
      dsimp only
      obtain ⟨hno, hsick⟩ | ⟨hok, hfp, hmove, -⟩ := moveTo_spec (ht.sound hchain)
        (({ fp.decSect with orgClust := cs'.headD 0 } : Fil).enter (vol fs) c) fs ((vol fs).clust2sect c)
      · rw [if_neg (by rw [hno]; exact Bool.noConfusion)]
        exact .inl ⟨rfl, fun h => hsick (ht.healthy h)⟩
      · rw [if_pos hok]
        refine .inr (.inr ⟨rfl, cs', ht.quiet hmove, fun a ha => (hmove.data a ha).trans (hkeep a ha), ?_, ?_⟩)
        · exact facing_enter { fp.decSect with orgClust := cs'.headD 0 } hk hptr hfp
        · rw [hfp]
          exact ⟨_, _, _, rfl⟩
    have hdec : fp.decSect = ({ fp with csect := 0 } : Fil) := by
      have h : (fp.csect + 255) % 256 = 0 := hcsect
      rw [decSect, h]
    have hspent : ∀ t : Disk, Relinked vol (s.link vol) s t → fp.fptr = 512 * (cs.length * (vol fs).csize) →
        Full vol fs s → ∀ fp' : Fil, fp' = { fp with csect := 0 } →
        (fp' : Fil) = { fp with csect := 0 } ∧ fp'.Spent (vol fs) cs ∧ Relinked vol (s.link vol) s t ∧ Full vol fs s := by
      rintro t ht hend hfull fp' rfl
      refine ⟨rfl, ⟨rfl, ?_, hend⟩, ht, hfull⟩
      have hone : fp.csect = 1 := by
        have hle := (vol fs).csize_le
        have hdec : (fp.csect + 255) % 256 = 0 := hcsect
        obtain ⟨-, h⟩ | ⟨-, k, c, r, -, -, -, -, -, h, -⟩ := hplaced <;> omega
      rw [← hone]
      exact hplaced
    obtain hzero | ⟨hpos, k, hk, hptr⟩ := hcluster
    · rw [if_pos hzero, if_pos hzero]
      cases cs with
      | nil =>
        have horg0 : fp.orgClust = 0 := horg
        rw [if_pos horg0]
        obtain ⟨hone, hsick⟩ | ⟨hfull, hrelinked, hnone⟩ | htook :=
          createChain_last hs fs 0 fun hne => absurd rfl hne
        · rw [if_neg (by omega), if_pos (.inl hone)]
          exact .inl ⟨rfl, hsick hbad⟩
        · rw [if_pos hfull]
          refine .inr (.inl ⟨rfl, hspent _ hrelinked ?_ hnone _ ?_⟩)
          · rw [hzero, List.length_nil, Nat.zero_mul]
          · rw [hfull, hdec]
            exact congrArg (fun n => ({ fp with csect := 0, orgClust := n } : Fil)) horg0.symm
        · have hlow := htook.low
          have hlt := htook.lt
          rw [if_neg (by omega), if_neg (by omega)]
          exact hnext [(s.createChain vol fs 0).1] 0 _ _ _ rfl (by rw [hzero, Nat.zero_mul])
            (Effect.take (.refl hs) htook) htook.data rfl
      | cons c cs =>
        have horgc : fp.orgClust = c := horg
        have hrange := cluster_range hchain (c := c) List.mem_cons_self
        have hne : ¬fp.orgClust = 0 := by omega
        rw [if_neg hne]
        dsimp only
        rw [if_neg hne, if_neg (by omega)]
        exact hnext (c :: cs) 0 fp.orgClust _ s (by rw [horgc]; rfl) (by rw [hzero, Nat.zero_mul]) (.refl hs)
          (fun _ _ => rfl) (by rw [← horg]; rfl)
    · have hne : fp.fptr ≠ 0 := Nat.ne_of_gt hpos
      rw [if_neg hne, if_neg hne]
      have horg' : fp.decSect = { fp.decSect with orgClust := cs.headD 0 } := by
        rw [← horg]
        rfl
      have hcell : (cells fs cs)[k]? = some (fs, fp.currClust) := by rw [List.getElem?_map, hk]; rfl
      obtain ⟨d, hd, hlink⟩ | ⟨hlength, hlast, hlink⟩ := hchain.link hcell
      · obtain ⟨d, hd', rfl⟩ : ∃ e, cs[k + 1]? = some e ∧ (fs, e) = d := by
          rw [List.getElem?_map, Option.map_eq_some_iff] at hd
          exact hd
        have hrange := cluster_range hchain (List.mem_of_getElem? hd')
        obtain ⟨hone, hsick⟩ | ⟨hc, hrelinked⟩ := createChain_next hs hlink
        · rw [if_neg (by omega), if_pos (.inl hone)]
          exact .inl ⟨rfl, hsick⟩
        · rw [hc, if_neg (by omega), if_neg (by omega)]
          exact hnext cs (k + 1) d _ _ hd' hptr ((Effect.refl hs).quiet hrelinked) hrelinked.data horg'
      · rw [List.length_map] at hlength
        have hgetLast : cs.getLastD 0 = fp.currClust := by
          rw [List.getLast?_map, Option.map_eq_some_iff] at hlast
          obtain ⟨c, hc, heq⟩ := hlast
          rw [List.getLastD_eq_getLast?, hc]
          exact congrArg Prod.snd heq
        obtain ⟨hone, hsick⟩ | ⟨hfull, hrelinked, hnone⟩ | htook := createChain_last hs fs fp.currClust fun _ => hlink
        · rw [if_neg (by omega), if_pos (.inl hone)]
          exact .inl ⟨rfl, hsick hbad⟩
        · rw [if_pos hfull]
          refine .inr (.inl ⟨rfl, hspent _ hrelinked ?_ hnone _ ?_⟩)
          · rw [hptr, hlength]
          · exact hdec
        · have hlow := htook.low
          have hlt := htook.lt
          rw [if_neg (by omega), if_neg (by omega)]
          have hne' : cs ≠ [] := fun h => by rw [h] at hk; cases hk
          refine hnext (cs ++ [(s.createChain vol fs fp.currClust).1]) (k + 1) _ _ _ ?_ hptr ?_ htook.data ?_
          · rw [List.getElem?_append_right (by omega), hlength, Nat.sub_self]
            rfl
          · exact (Effect.refl hs).take (by rw [hgetLast]; exact htook)
          · rw [headD_append hne']
            exact horg'

variable {wbuff : List UInt8}

/-- The bytes of a file after `n` bytes of `wbuff` were written from `start` on: those that were in its
clusters before, and the new ones. -/
def Wrote (vol : ℕ → Volume) (fs : ℕ) (cs cs' : List ℕ) (start n : ℕ) (wbuff : List UInt8) (s s' : Disk) : Prop :=
  ∀ o, o < 512 * (cs.length * (vol fs).csize) ∨ start ≤ o ∧ o < start + n →
    s'.byte vol fs cs' o = if start ≤ o ∧ o < start + n then wbuff.getD (o - start) 0 else s.byte vol fs cs o

theorem writePart_spec (hs : s.Sound vol) (hchain : IsChain (s.link vol) (cells fs cs))
    (hfacing : fp.Facing (vol fs) cs) (hpos : 0 < wbuff.length) (hshort : wbuff.length < 512) :
    let r := fp.writePart vol fs s wbuff
    (r.1 = none ∧ ¬s.Healthy vol) ∨ ∃ n, 0 < n ∧ n ≤ wbuff.length ∧ r.1 = some n ∧ r.2.1 = fp ∧
      (fp.advance n).Placed (vol fs) cs ∧ Effect vol fs cs s cs r.2.2 ∧ Wrote vol fs cs cs fp.fptr n wbuff s r.2.2 := by
  rw [writePart, if_neg (by omega)]
  dsimp only
  obtain ⟨hno, hsick⟩ | ⟨hok, hmove, htag, hblock⟩ := hfacing.move hs hchain
  · rw [if_neg (by rw [hno]; exact Bool.noConfusion)]
    exact .inl ⟨rfl, hsick⟩
  rw [if_pos hok]
  generalize (s.moveWindow vol fs fp.currSect).2 = m at hmove htag hblock ⊢
  generalize hn : min (512 - fp.fptr % 512) wbuff.length = n
  obtain ⟨hsect, hlt⟩ := hfacing.sector hfacing.csect_pos
  rw [Nat.add_zero] at hsect hlt
  refine .inr ⟨n, by omega, by omega, rfl, rfl, hfacing.advance (by omega) (by omega), ?_, ?_⟩
  · obtain ⟨k, c, q, hk, hptr, hq, -⟩ := hfacing
    rw [hptr, sector_eq hk hq] at htag
    exact ((Effect.refl hs).quiet hmove).store _ (List.mem_of_getElem? hk) hq htag
  · intro o ho
    have hroom : o / 512 < cs.length * (vol fs).csize := by omega
    rw [Disk.byte, show ∀ block, ({ m with buf := m.buf.store block } : Disk).buf.view =
      Function.update m.buf.view m.buf.tag block from fun _ => Cache.view_store, htag]
    by_cases hself : o / 512 = fp.fptr / 512
    · rw [hself, Function.update_self]
      by_cases hin : fp.fptr ≤ o ∧ o < fp.fptr + n
      · obtain ⟨i, rfl⟩ := Nat.exists_eq_add_of_le hin.1
        have hrem : (fp.fptr + i) % 512 = fp.fptr % 512 + i := by omega
        rw [if_pos hin, hrem, Memory.write_inside (by omega), Nat.add_sub_cancel_left]
      · rw [if_neg hin, Memory.write_outside (by omega), Disk.byte, hself, ← htag,
          ← hmove.data _ (htag ▸ data_sector hchain hlt), Cache.view_tag]
    · have hne : (fs, (vol fs).sector cs (o / 512)) ≠ (fs, (vol fs).sector cs (fp.fptr / 512)) := fun heq =>
        hself (sector_inj hchain hroom hlt (congrArg Prod.snd heq))
      rw [Function.update_of_ne hne, if_neg (by omega)]
      exact hmove.byte hchain (by omega)

/-- Two writes, one behind the other. -/
theorem Wrote.trans {cs' cs'' : List ℕ} {s' s'' : Disk} {start n m : ℕ} (hle : cs.length ≤ cs'.length)
    (h : Wrote vol fs cs cs' start n wbuff s s') (hroom : start + n ≤ 512 * (cs'.length * (vol fs).csize))
    (h' : Wrote vol fs cs' cs'' (start + n) m (wbuff.drop n) s' s'') :
    Wrote vol fs cs cs'' start (n + m) wbuff s s'' := by
  intro o ho
  have hmul := Nat.mul_le_mul_right (vol fs).csize hle
  rw [h' o (by omega)]
  by_cases hlast : start + n ≤ o ∧ o < start + n + m
  · rw [if_pos hlast, if_pos (by omega), List.getD_eq_getElem?_getD, List.getElem?_drop,
      List.getD_eq_getElem?_getD, show n + (o - (start + n)) = o - start by omega]
  · rw [if_neg hlast, h o (by omega)]
    by_cases hfirst : start ≤ o ∧ o < start + n
    · rw [if_pos hfirst, if_pos (by omega)]
    · rw [if_neg hfirst, if_neg (by omega)]

/-- Nothing of a file changes as long as only its chain gets longer. -/
theorem wrote_zero {cs' : List ℕ} {s' : Disk} {start : ℕ} (hle : cs <+: cs')
    (h : ∀ o < 512 * (cs.length * (vol fs).csize), s'.byte vol fs cs o = s.byte vol fs cs o) :
    Wrote vol fs cs cs' start 0 wbuff s s' := by
  intro o ho
  have hlt : o < 512 * (cs.length * (vol fs).csize) := by omega
  rw [if_neg (by omega), byte_prefix hle hlt, h o hlt]

theorem KeepsData.wrote {cs' : List ℕ} {s' : Disk} (h : KeepsData vol s s') (start : ℕ) (wbuff : List UInt8)
    (hchain : IsChain (s.link vol) (cells fs cs)) (hle : cs <+: cs') : Wrote vol fs cs cs' start 0 wbuff s s' :=
  wrote_zero hle fun _ ho => congrFun (h _ (data_sector hchain (Nat.div_lt_of_lt_mul ho))) _

theorem Placed.le {v : Volume} (h : fp.Placed v cs) : fp.fptr ≤ 512 * (cs.length * v.csize) := by
  obtain ⟨hzero, -⟩ | ⟨-, k, c, r, hk, hlow, hptr, hr, -⟩ := h
  · omega
  · have hlt : k < cs.length := (List.getElem?_eq_some_iff.mp hk).1
    have := Nat.mul_le_mul_right v.csize (show k + 1 ≤ cs.length from hlt)
    rw [Nat.add_mul, Nat.one_mul] at this
    omega

/-- What the loop of `f_write` comes to: everything was written, or the volume is full. -/
structure WriteDone (vol : ℕ → Volume) (fs : ℕ) (cs cs' : List ℕ) (wbuff : List UInt8) (n : ℕ) (fp fp' : Fil)
    (s s' : Disk) : Prop where
  effect : Effect vol fs cs s cs' s'
  le : n ≤ wbuff.length
  fil : (fp.advance n).Extended cs' fp'
  wrote : Wrote vol fs cs cs' fp.fptr n wbuff s s'
  stop : fp'.Placed (vol fs) cs' ∧ n = wbuff.length ∨ fp'.Spent (vol fs) cs' ∧ n < wbuff.length ∧ Full vol fs s'

theorem Extended.trans {cs' : List ℕ} {fp' fp'' : Fil} (h : fp.Extended cs fp') (h' : fp'.Extended cs' fp'') :
    fp.Extended cs' fp'' := by
  obtain ⟨_, _, _, rfl⟩ := h
  obtain ⟨_, _, _, rfl⟩ := h'
  exact ⟨_, _, _, rfl⟩

theorem Extended.advance {fp' : Fil} (h : fp.Extended cs fp') (n : ℕ) :
    (fp.advance n).Extended cs (fp'.advance n) := by
  obtain ⟨_, _, _, rfl⟩ := h
  exact ⟨_, _, _, rfl⟩

theorem Extended.fptr {fp' : Fil} (h : fp.Extended cs fp') : fp'.fptr = fp.fptr := by
  obtain ⟨_, _, _, rfl⟩ := h
  rfl

theorem Extended.orgClust {fp' : Fil} (h : fp.Extended cs fp') : fp'.orgClust = cs.headD 0 := by
  obtain ⟨_, _, _, rfl⟩ := h
  rfl

theorem extended_self (horg : fp.orgClust = cs.headD 0) : fp.Extended cs fp := ⟨_, _, _, by rw [← horg]⟩

theorem writeLoop_spec (fuel : ℕ) (hs : s.Sound vol) (hchain : IsChain (s.link vol) (cells fs cs))
    (hbad : s.NoBad vol fs) (hplaced : fp.Placed (vol fs) cs) (horg : fp.orgClust = cs.headD 0)
    (hfuel : wbuff.length ≤ fuel) (hshort : wbuff.length < 512) :
    let r := fp.writeLoop vol fs fuel wbuff s
    (r.1 = false ∧ ¬s.Healthy vol) ∨
      (r.1 = true ∧ ∃ cs', WriteDone vol fs cs cs' wbuff r.2.1 fp r.2.2.1 s r.2.2.2) := by
  have hdone : wbuff.length = 0 → WriteDone vol fs cs cs wbuff 0 fp fp s s := fun hzero =>
    ⟨.refl hs, Nat.zero_le _, extended_self horg, wrote_zero List.prefix_rfl fun _ _ => rfl,
      .inl ⟨hplaced, hzero.symm⟩⟩
  induction fuel generalizing fp s cs wbuff with
  | zero => exact .inr ⟨rfl, cs, hdone (by omega)⟩
  | succ fuel ih =>
    rw [writeLoop]
    by_cases hzero : wbuff.length = 0
    · rw [if_pos hzero]
      exact .inr ⟨rfl, cs, hdone hzero⟩
    rw [if_neg hzero]
    dsimp only
    have hsector : let b := if fp.fptr % 512 = 0 then fp.writeSector vol fs s else (.go, fp, s)
        (b.1 = .error ∧ ¬s.Healthy vol) ∨
          (b.1 = .full ∧ b.2.1 = { fp with csect := 0 } ∧ b.2.1.Spent (vol fs) cs ∧
            Relinked vol (s.link vol) s b.2.2 ∧ Full vol fs s) ∨
          (b.1 = .go ∧ ∃ cs', Effect vol fs cs s cs' b.2.2 ∧ KeepsData vol s b.2.2 ∧ b.2.1.Facing (vol fs) cs' ∧
            fp.Extended cs' b.2.1) := by
      dsimp only
      by_cases hmod : fp.fptr % 512 = 0
      · rw [if_pos hmod]
        exact writeSector_spec hs hchain hbad hplaced hmod horg hplaced.le
      · rw [if_neg hmod]
        exact .inr (.inr ⟨rfl, cs, .refl hs, fun _ _ => rfl, hplaced.facing hmod, extended_self horg⟩)
    generalize (if fp.fptr % 512 = 0 then fp.writeSector vol fs s else (.go, fp, s)) = b at hsector ⊢
    obtain ⟨hno, hsick⟩ | ⟨hfull, hfp, hspent, hrelinked, hnone⟩ | ⟨hgo, cs₁, heffect, hkeep, hfacing, hextended⟩ :=
      hsector
    · rw [hno]
      exact .inl ⟨rfl, hsick⟩
    · rw [hfull]
      have hkeep : KeepsData vol s b.2.2 := hrelinked.data
      refine .inr ⟨rfl, cs, (Effect.refl hs).quiet hrelinked, Nat.zero_le _, ?_, hkeep.wrote _ _ hchain List.prefix_rfl,
        .inr ⟨hspent, Nat.pos_of_ne_zero hzero, fun c hc hlt => ?_⟩⟩
      · rw [hfp]
        exact ⟨_, _, _, by rw [← horg]; rfl⟩
      · rw [hrelinked.link]
        exact hnone c hc hlt
    rw [hgo]
    dsimp only
    have hs₁ := heffect.sound hchain
    have hchain₁ := heffect.chain hchain
    obtain ⟨hnone, hsick⟩ | ⟨n, hpos, hle, hsome, hfp, hplaced', hpart, hwrote⟩ :=
      writePart_spec hs₁ hchain₁ hfacing (Nat.pos_of_ne_zero hzero) hshort
    · rw [hnone]
      exact .inl ⟨rfl, fun h => hsick (heffect.healthy h)⟩
    rw [hsome, hfp]
    dsimp only
    generalize b.2.1.writePart vol fs b.2.2 wbuff = p at hpart hwrote ⊢
    have htotal := heffect.trans hpart
    have hdrop : (wbuff.drop n).length = wbuff.length - n := List.length_drop
    have hptr := hextended.fptr
    have hfirst : Wrote vol fs cs cs₁ fp.fptr n wbuff s p.2.2 := by
      have htwo := (hkeep.wrote fp.fptr wbuff hchain heffect.isPrefix).trans
        heffect.isPrefix.length_le (n := 0) (m := n) (by have := hplaced'.le; rw [advance_fptr] at this; omega)
        (by rw [← hptr]; exact hwrote)
      rwa [Nat.zero_add] at htwo
    obtain ⟨hno, hsick⟩ | ⟨hok, cs₂, hrest⟩ := @ih _ _ (b.2.1.advance n) (wbuff.drop n)
      (htotal.sound hchain) (htotal.chain hchain) (htotal.noBad hchain hbad) hplaced' hextended.orgClust (by omega)
      (by omega) fun h => ⟨.refl (htotal.sound hchain), Nat.zero_le _, extended_self hextended.orgClust,
        wrote_zero List.prefix_rfl fun _ _ => rfl, .inl ⟨hplaced', h.symm⟩⟩
    · exact .inl ⟨hno, fun h => hsick (htotal.healthy h)⟩
    · refine .inr ⟨hok, cs₂, htotal.trans hrest.effect, ?_, ?_, ?_, ?_⟩
      · have := hrest.le
        omega
      · have hfil := (hextended.advance n).advance (((b.2.1.advance n).writeLoop vol fs fuel (wbuff.drop n) p.2.2).2.1)
        rw [advance_advance] at hfil
        exact hfil.trans hrest.fil
      · have hroom := hplaced'.le
        rw [advance_fptr, hptr] at hroom
        have hwrote' := hrest.wrote
        rw [advance_fptr, hptr] at hwrote'
        exact hfirst.trans heffect.isPrefix.length_le hroom hwrote'
      · obtain ⟨hpl, hn⟩ | ⟨hsp, hn, hnone⟩ := hrest.stop
        · exact .inl ⟨hpl, by omega⟩
        · exact .inr ⟨hsp, by omega, hnone⟩

end Fil

end NoDiskEmu.Ff
