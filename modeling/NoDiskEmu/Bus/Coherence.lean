import NoDiskEmu.Bus.Dos

/-! What the BAM buffers hold along the calls, while no access to an image file fails. A buffer belongs
to a partition with an image, so a mount finds no buffer of its partition. -/

namespace NoDiskEmu.Bus

open Dxx

variable {s s' s'' : State} {v : Drive} {part track sector : ℕ}

/-! ### Calls on the BAM -/

/-- After a call on the BAM of `part` the buffers agree with the images, and belong to `part` or to
partitions they belonged to before. -/
structure Serves (part : ℕ) (s s' : State) : Prop where
  coherent : Coherent s'
  maxPart : s'.maxPart = s.maxPart
  parts : ∀ b, s'.HasBuffer b → b.part ≠ 255 → b.part = part ∨ ∃ c, s.HasBuffer c ∧ b.part = c.part

theorem Serves.refl (hs : Coherent s) (part : ℕ) : Serves part s s :=
  ⟨hs, rfl, fun b hb _ => .inr ⟨b, hb, rfl⟩⟩

theorem Serves.trans (h : Serves part s s') (h' : Serves part s' s'') : Serves part s s'' := by
  refine ⟨h'.coherent, h'.maxPart.trans h.maxPart, fun b hb hvalid => ?_⟩
  rcases h'.parts b hb hvalid with heq | ⟨c, hc, heq⟩
  · exact .inl heq
  · rw [heq] at hvalid ⊢
    exact h.parts c hc hvalid

/-- The buffers hold what the image files hold, and belong to partitions of `ops`. -/
structure Mirrors (ops : ℕ → Bool) (s : State) : Prop where
  coherent : Coherent s
  mounted : ∀ b, s.HasBuffer b → b.part ≠ 255 → ops b.part = true

variable {ops : ℕ → Bool}

theorem Mirrors.congr (h : Mirrors ops s) (hp : s'.partition = s.partition) (hm : s'.maxPart = s.maxPart)
    (hio : s'.io = s.io) (h1 : s'.bamBuffer = s.bamBuffer) (h2 : s'.bamBuffer2 = s.bamBuffer2) :
    Mirrors ops s' := by
  refine ⟨⟨hio.trans h.coherent.noFault, hm ▸ h.coherent.maxPart, ?_, ?_, ?_⟩, ?_⟩
  · rw [h1]
    exact h.coherent.first.congr hp hm
  · rw [h2]
    exact fun b hb => (h.coherent.second b hb).congr hp hm
  · rw [h1, h2]
    exact h.coherent.apart
  · unfold State.HasBuffer
    rw [h1, h2]
    exact h.mounted

/-- A buffer without a partition holds nothing. -/
theorem bufferOk_of_empty {b : BamBuffer} (hempty : b.part = 255) (hclean : b.mustflush = false) : BufferOk s b :=
  ⟨fun _ => hclean, fun h => absurd hempty h, fun h => absurd hempty h, fun h => absurd hempty h⟩

/-- Buffers of other partitions do not see another image on `part`. -/
theorem Mirrors.setPartition (h : Mirrors ops s) (hops : ops part = false) (p : Partition) :
    Mirrors ops (s.setPartition part p) := by
  have hok : ∀ b, s.HasBuffer b → BufferOk (s.setPartition part p) b := by
    intro b hb
    have hbuffer := h.coherent.bufferOk hb
    by_cases hvalid : b.part = 255
    · exact bufferOk_of_empty hvalid (hbuffer.empty hvalid)
    · have hne : b.part ≠ part := fun heq => by
        have hmounted := h.mounted b hb hvalid
        rw [heq, hops] at hmounted
        cases hmounted
      have hsame : (s.setPartition part p).partition b.part = s.partition b.part :=
        Function.update_of_ne hne _ _
      refine ⟨hbuffer.empty, hbuffer.part, ?_, ?_⟩
      all_goals
        simp only [State.offset, State.type, State.image, hsame]
      · exact hbuffer.bam
      · exact hbuffer.clean
  exact ⟨⟨h.coherent.noFault, h.coherent.maxPart, hok _ (.inl rfl), fun b hb => hok b (.inr hb),
    h.coherent.apart⟩, h.mounted⟩

theorem Mirrors.flush (h : Mirrors ops s) : Mirrors ops (flushBam s).2 := by
  obtain ⟨s', hf, hco, -, h1, h2⟩ := flushBam_ok h.coherent
  rw [hf]
  refine ⟨hco, fun b hb hvalid => ?_⟩
  rcases hb with rfl | hb
  · rw [h1] at hvalid ⊢
    exact h.mounted s.bamBuffer (.inl rfl) hvalid
  · exact h.mounted b (.inr (h2 ▸ hb)) hvalid

theorem Mirrors.flush2 (h : Mirrors ops s) : Mirrors ops (flushBam2 s).2 := by
  obtain ⟨s', hf, hco, -, h1, h2⟩ := flushBam2_ok h.coherent
  rw [hf]
  refine ⟨hco, fun b hb hvalid => ?_⟩
  rcases hb with rfl | hb
  · rw [h1] at hvalid ⊢
    exact h.mounted s.bamBuffer (.inl rfl) hvalid
  · rw [h2] at hb
    obtain ⟨c, hc, rfl⟩ := Option.map_eq_some_iff.mp hb
    exact h.mounted c (.inr hc) hvalid

/-- A clean buffer can be marked as empty. -/
theorem Mirrors.forget (h : Mirrors ops s) (hclean : s.bamBuffer.mustflush = false) (part : ℕ) :
    Mirrors ops (s.forget part) := by
  unfold State.forget
  split
  · refine ⟨⟨h.coherent.noFault, h.coherent.maxPart, bufferOk_of_empty rfl hclean,
      fun b hb => (h.coherent.second b hb).congr rfl rfl, fun b _ hvalid htag => hvalid htag.1.symm⟩, ?_⟩
    · rintro b (rfl | hb) hvalid
      · exact absurd rfl hvalid
      · exact h.mounted b (.inr hb) hvalid
  · exact h

theorem Mirrors.forget2 (h : Mirrors ops s) (hclean : ∀ b, s.bamBuffer2 = some b → b.mustflush = false)
    (part : ℕ) : Mirrors ops (s.forget2 part) := by
  refine ⟨⟨h.coherent.noFault, h.coherent.maxPart, h.coherent.first.congr rfl rfl, fun b hb => ?_,
    fun b hb hvalid htag => ?_⟩, ?_⟩
  · obtain ⟨c, hc, rfl⟩ := Option.map_eq_some_iff.mp hb
    split
    · exact bufferOk_of_empty rfl (hclean c hc)
    · exact (h.coherent.second c hc).congr rfl rfl
  · obtain ⟨c, hc, rfl⟩ := Option.map_eq_some_iff.mp hb
    split at hvalid
    · exact absurd rfl hvalid
    · next hne =>
      rw [if_neg hne] at htag
      exact h.coherent.apart c hc hvalid htag
  · rintro b (rfl | hb) hvalid
    · exact h.mounted _ (.inl rfl) hvalid
    · obtain ⟨c, hc, rfl⟩ := Option.map_eq_some_iff.mp hb
      split at hvalid
      · exact absurd rfl hvalid
      · next hne =>
        rw [if_neg hne]
        exact h.mounted c (.inr hc) hvalid

/-- The invariant of the calls: the buffers belong to mounted images and agree with them, if there are
any. -/
structure Backed (v : Drive) : Prop where
  noFault : v.disk.NoFault
  maxPart : v.disk.maxPart ≤ 255
  mirrors : v.bam = true → Mirrors v.d64ops v.disk
  second : v.bam = false → v.disk.bamBuffer2 = none

theorem Backed.congr {v' : Drive} (hv : Backed v) (hdisk : v'.disk = v.disk) (hbam : v'.bam = v.bam)
    (hops : v'.d64ops = v.d64ops) : Backed v' := by
  refine ⟨hdisk ▸ hv.noFault, hdisk ▸ hv.maxPart, fun h => ?_, fun h => hdisk ▸ hv.second (hbam ▸ h)⟩
  rw [hdisk, hops]
  exact hv.mirrors (hbam ▸ h)

/-- The buffers after the flushes of `d64_unmount`: none belongs to the partition. -/
theorem Mirrors.unmount (h : Mirrors ops s) (part : ℕ) :
    Mirrors (Function.update ops part false) ((flushBam2 ((flushBam s).2.forget part)).2.forget2 part) := by
  obtain ⟨s1, hf1, -, -, hfirst, -⟩ := flushBam_ok h.coherent
  have hclean1 : (flushBam s).2.bamBuffer.mustflush = false := by rw [hf1, hfirst]
  have h2 := h.flush.forget hclean1 part
  have hforgot : ((flushBam s).2.forget part).bamBuffer.part ≠ 255 →
      ((flushBam s).2.forget part).bamBuffer.part ≠ part := by
    unfold State.forget
    split
    · exact fun hvalid => absurd rfl hvalid
    · next hne => exact fun _ => hne
  obtain ⟨s3, hf3, -, -, hfirst3, hsecond3⟩ := flushBam2_ok h2.coherent
  have hclean3 : ∀ b, (flushBam2 ((flushBam s).2.forget part)).2.bamBuffer2 = some b → b.mustflush = false := by
    intro b hb
    rw [hf3, hsecond3] at hb
    obtain ⟨c, -, rfl⟩ := Option.map_eq_some_iff.mp hb
    rfl
  have h4 := h2.flush2.forget2 hclean3 part
  refine ⟨h4.coherent, fun b hb hvalid => ?_⟩
  have hne : b.part ≠ part := by
    rcases hb with rfl | hb
    · have hsame : ((flushBam2 ((flushBam s).2.forget part)).2.forget2 part).bamBuffer =
          ((flushBam s).2.forget part).bamBuffer := by
        rw [hf3]
        exact hfirst3
      rw [hsame] at hvalid ⊢
      exact hforgot hvalid
    · obtain ⟨c, -, rfl⟩ := Option.map_eq_some_iff.mp hb
      split at hvalid
      · exact absurd rfl hvalid
      · next hne =>
        rw [if_neg hne]
        exact hne
  exact (Function.update_of_ne hne _ _).trans (h4.mounted b hb hvalid)

end NoDiskEmu.Bus
