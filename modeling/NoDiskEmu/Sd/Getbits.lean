import NoDiskEmu.Library.BitField
import Mathlib.Data.UInt
import Mathlib.Tactic.IntervalCases

/-! `getbits` of `sdcard.c`, which takes a field of bits out of a register of a card. -/

namespace NoDiskEmu.Sd

open Library.BitField

/-- The variables of `getbits`, and the bytes of the buffer that it has read. -/
structure Extraction where
  result : UInt32
  start : UInt16
  bits : ℤ
  reads : List ℕ

/-- The loop of `getbits`; no `int8_t` holds more than sixteen times 8 bits. -/
def wholeBytes (buf : ℕ → UInt8) : ℕ → Extraction → Extraction
  | 0, s => s
  | fuel + 1, s =>
    if 8 ≤ s.bits then
      let i := (s.start / 8).toNat
      wholeBytes buf fuel
        ⟨(s.result <<< 8) + (buf i).toUInt32, s.start + 8, s.bits - 8, s.reads ++ [i]⟩
    else s

/-- The part of `getbits` for a field that does not start with a byte. -/
def unalignedStart (buf : ℕ → UInt8) (start : UInt16) (bits : ℤ) : Extraction :=
  if start % 8 ≠ 0 then
    let i := (start / 8).toNat
    let head := (start % 8).toNat
    ⟨.ofNat ((buf i).toNat &&& (255 >>> head)), start + (8 - start % 8), bits - (8 - head), [i]⟩
  else ⟨0, start, bits, []⟩

/-- The part of `getbits` behind the loop, for the bits that are left or that are too many. -/
def lastBits (buf : ℕ → UInt8) (s : Extraction) : UInt32 × List ℕ :=
  let i := (s.start / 8).toNat
  if 0 < s.bits then
    ((s.result <<< .ofNat s.bits.toNat) + .ofNat ((buf i).toNat >>> (8 - s.bits).toNat), s.reads ++ [i])
  else if s.bits < 0 then (s.result >>> .ofNat (-s.bits).toNat, s.reads)
  else (s.result, s.reads)

/-- `getbits`, with the bytes it reads. -/
def getbits (buf : ℕ → UInt8) (start : UInt16) (bits : ℤ) : UInt32 × List ℕ :=
  lastBits buf (wholeBytes buf 16 (unalignedStart buf start bits))

variable {f : ℕ → UInt8}

/-! ### The loop -/

theorem index_eq (p : ℕ) : (UInt16.ofNat p / 8).toNat = p % 65536 / 8 := by
  rw [UInt16.toNat_div, UInt16.toNat_ofNat']
  rfl

/-- A loop over `r` bits stops with less than 8 of them to go, and has read one byte for every other 8. -/
theorem wholeBytes_spec (fuel : ℕ) {s : Extraction} {p r : ℕ} (hstart : s.start = .ofNat p)
    (hbits : s.bits = r) (hfuel : r < 8 * (fuel + 1)) :
    (wholeBytes f fuel s).start = .ofNat (p + 8 * (r / 8)) ∧
      (wholeBytes f fuel s).bits = (r % 8 : ℕ) ∧
      (wholeBytes f fuel s).reads =
        s.reads ++ (List.range (r / 8)).map fun j => (p + 8 * j) % 65536 / 8 := by
  induction fuel generalizing s p r with
  | zero =>
    have hquot : r / 8 = 0 := by omega
    rw [wholeBytes, hquot, Nat.mul_zero, Nat.add_zero, Nat.mod_eq_of_lt (by omega)]
    exact ⟨hstart, hbits, by simp⟩
  | succ fuel ih =>
    rw [wholeBytes]
    by_cases hmore : 8 ≤ r
    · obtain ⟨r, rfl⟩ : ∃ r', r = r' + 8 := ⟨r - 8, by omega⟩
      have hquot : (r + 8) / 8 = r / 8 + 1 := by omega
      have hnext : s.start + 8 = .ofNat (p + 8) := by
        rw [hstart, UInt16.ofNat_add]
        rfl
      rw [if_pos (by omega)]
      obtain ⟨h1, h2, h3⟩ := ih (s := ⟨(s.result <<< 8) + (f (s.start / 8).toNat).toUInt32, s.start + 8,
        s.bits - 8, s.reads ++ [(s.start / 8).toNat]⟩) hnext (show s.bits - 8 = (r : ℕ) by omega)
        (by omega)
      refine ⟨?_, ?_, ?_⟩
      · rw [h1, hquot, Nat.mul_add, Nat.add_assoc, Nat.add_comm 8]
      · rw [h2, Nat.add_mod_right]
      · rw [h3, hquot, List.range_succ_eq_map, List.map_cons, List.map_map, hstart, index_eq,
          List.append_assoc, List.singleton_append]
        congr 2
        apply List.map_congr_left
        intro j _
        rw [Function.comp_apply, Nat.succ_eq_add_one, Nat.mul_add, Nat.add_assoc, Nat.add_comm 8]
    · have hquot : r / 8 = 0 := by omega
      rw [if_neg (by omega), hquot, Nat.mul_zero, Nat.add_zero, Nat.mod_eq_of_lt (by omega)]
      exact ⟨hstart, hbits, by simp⟩

/-- One more part of a field. -/
theorem toNat_append {result part : UInt32} {p n m : ℕ} (hm : m < 32) (hfits : n + m ≤ 32)
    (hresult : result.toNat = field f p n) (hpart : part.toNat = field f (p + n) m) :
    ((result <<< .ofNat m) + part).toNat = field f p (n + m) := by
  have hlt := field_lt (f := f) p (n + m)
  have hle : 2 ^ (n + m) ≤ 2 ^ 32 := Nat.pow_le_pow_right (by decide) hfits
  have hshift : (UInt32.ofNat m).toNat % 32 = m := by
    rw [UInt32.toNat_ofNat', Nat.mod_eq_of_lt (Nat.lt_trans hm (by decide)), Nat.mod_eq_of_lt hm]
  rw [field_add] at hlt ⊢
  rw [UInt32.toNat_add, UInt32.toNat_shiftLeft, hshift, Nat.shiftLeft_eq, hresult, hpart,
    Nat.mod_add_mod]
  exact Nat.mod_eq_of_lt (Nat.lt_of_lt_of_le hlt hle)

/-- The loop appends whole bytes to the field, as long as the position fits into its 16 bits. -/
theorem wholeBytes_result (fuel : ℕ) {s : Extraction} {p n q r : ℕ} (hstart : s.start = .ofNat (8 * q))
    (hbits : s.bits = r) (hresult : s.result.toNat = field f p n) (hq : p + n = 8 * q) (hfits : n + r ≤ 32)
    (hend : 8 * q + r ≤ 65536) (hfuel : r < 8 * (fuel + 1)) :
    (wholeBytes f fuel s).result.toNat = field f p (n + 8 * (r / 8)) := by
  induction fuel generalizing s n q r with
  | zero =>
    have hquot : r / 8 = 0 := by omega
    rw [wholeBytes, hquot, Nat.mul_zero, Nat.add_zero, hresult]
  | succ fuel ih =>
    rw [wholeBytes]
    by_cases hmore : 8 ≤ r
    · obtain ⟨r, rfl⟩ : ∃ r', r = r' + 8 := ⟨r - 8, by omega⟩
      have hquot : (r + 8) / 8 = r / 8 + 1 := by omega
      have hnext : s.start + 8 = .ofNat (8 * (q + 1)) := by
        rw [hstart, Nat.mul_add, UInt16.ofNat_add]
        rfl
      have hindex : (s.start / 8).toNat = q := by
        rw [hstart, index_eq]
        omega
      have hbyte : (f q).toUInt32.toNat = field f (p + n) 8 := by
        rw [hq, field_whole, UInt8.toNat_toUInt32]
      rw [if_pos (by omega)]
      dsimp only
      rw [hindex]
      have h := ih (s := ⟨(s.result <<< 8) + (f q).toUInt32, s.start + 8, s.bits - 8, s.reads ++ [q]⟩)
        (n := n + 8) (q := q + 1) (r := r) hnext (show s.bits - 8 = (r : ℕ) by omega)
        (toNat_append (m := 8) (by decide) (by omega) hresult hbyte) (by omega) (by omega) (by omega) (by omega)
      rw [h, hquot, Nat.mul_add, Nat.add_assoc, Nat.add_comm 8]
    · have hquot : r / 8 = 0 := by omega
      rw [if_neg (by omega), hquot, Nat.mul_zero, Nat.add_zero, hresult]

/-! ### The parts of a field -/

theorem and_head (x : UInt8) {head : ℕ} (h : head < 8) :
    x.toNat &&& (255 >>> head) = x.toNat % 2 ^ (8 - head) := by
  have hmask : 255 >>> head = 2 ^ (8 - head) - 1 := by
    interval_cases head <;> rfl
  rw [hmask, Nat.and_two_pow_sub_one_eq_mod]

/-- After the part before the first whole byte, `r` bits are left, or the byte has `-r` bits too many. -/
theorem unalignedStart_spec {start : UInt16} {q k b : ℕ} (hstart : start.toNat = 8 * q + k) (hpos : 0 < k)
    (hk : k < 8) :
    unalignedStart f start b =
      ⟨.ofNat ((f q).toNat % 2 ^ (8 - k)), .ofNat (8 * (q + 1)), b - (8 - k : ℕ), [q]⟩ := by
  have hmod : (start % 8).toNat = k := by
    rw [UInt16.toNat_mod, hstart]
    exact (Nat.mul_add_mod ..).trans (Nat.mod_eq_of_lt hk)
  have hdiv : (start / 8).toNat = q := by
    rw [UInt16.toNat_div, hstart]
    exact Nat.mul_add_div (by decide) q k |>.trans (by rw [Nat.div_eq_of_lt hk, Nat.add_zero])
  have hne : start % 8 ≠ 0 := by
    intro h
    rw [h] at hmod
    exact absurd hmod (Nat.ne_of_lt hpos)
  have hnext : start + (8 - start % 8) = .ofNat (8 * (q + 1)) := by
    rw [← UInt16.toNat_inj, UInt16.toNat_add, UInt16.toNat_sub, hmod, hstart, UInt16.toNat_ofNat']
    simp only [UInt16.reduceToNat]
    omega
  rw [unalignedStart, if_pos hne]
  dsimp only
  rw [hmod, hdiv, hnext, and_head _ hk, Nat.cast_sub (Nat.le_of_lt hk)]
  rfl

theorem toNat_head {q k : ℕ} (hk : k < 8) :
    (UInt32.ofNat ((f q).toNat % 2 ^ (8 - k))).toNat = field f (8 * q + k) (8 - k) := by
  have hlt : (f q).toNat % 2 ^ (8 - k) < 2 ^ 32 :=
    Nat.lt_of_le_of_lt (Nat.mod_le _ _) (Nat.lt_trans (f q).toNat_lt (by decide))
  rw [UInt32.toNat_ofNat', Nat.mod_eq_of_lt hlt, field_byte q k (8 - k) (by omega), Nat.sub_self,
    Nat.pow_zero, Nat.div_one]

/-- A field that ends in the byte it starts in. -/
theorem toNat_inside {q k b : ℕ} (hend : k + b < 8) :
    (UInt32.ofNat ((f q).toNat % 2 ^ (8 - k)) >>> .ofNat (8 - k - b)).toNat =
      field f (8 * q + k) b := by
  have hshift : (UInt32.ofNat (8 - k - b)).toNat % 32 = 8 - k - b := by
    rw [UInt32.toNat_ofNat']
    omega
  have hpow : 2 ^ (8 - k) = 2 ^ (8 - k - b) * 2 ^ b := by
    rw [← pow_add]
    congr 1
    omega
  rw [UInt32.toNat_shiftRight, hshift, Nat.shiftRight_eq_div_pow, toNat_head (by omega),
    field_byte q k (8 - k) (by omega), Nat.sub_self, Nat.pow_zero, Nat.div_one, hpow,
    Nat.mod_mul_right_div_self, field_byte q k b (by omega)]

/-- The last bits of a field. -/
theorem toNat_tail {q r : ℕ} (hr : r < 8) :
    (UInt32.ofNat ((f q).toNat >>> (8 - r))).toNat = field f (8 * q) r := by
  have hlt := (f q).toNat_lt
  have hle : (f q).toNat / 2 ^ (8 - r) ≤ (f q).toNat := Nat.div_le_self _ _
  have h := field_byte (f := f) q 0 r (by omega)
  rw [Nat.add_zero, Nat.sub_zero] at h
  have hmod : (f q).toNat / 2 ^ (8 - r) < 2 ^ r := by
    rw [Nat.div_lt_iff_lt_mul (Nat.two_pow_pos _), ← pow_add, Nat.add_sub_cancel' (by omega)]
    exact hlt
  rw [UInt32.toNat_ofNat', Nat.shiftRight_eq_div_pow, h, Nat.mod_eq_of_lt hmod]
  exact Nat.mod_eq_of_lt (Nat.lt_of_le_of_lt hle (Nat.lt_trans hlt (by decide)))

/-! ### The field -/

/-- From a byte boundary on, the loop and what comes behind it read the bytes of the `r` bits that are left,
at positions of 16 bits, and complete the field. -/
theorem lastBits_spec {s : Extraction} {p n q r : ℕ} (hstart : s.start = .ofNat (8 * q)) (hbits : s.bits = r)
    (hresult : s.result.toNat = field f p n) (hq : p + n = 8 * q) (hfits : n + r ≤ 32) :
    (lastBits f (wholeBytes f 16 s)).2 =
        s.reads ++ (List.range ((r + 7) / 8)).map (fun j => (8 * q + 8 * j) % 65536 / 8) ∧
      (8 * q + r ≤ 65536 → (lastBits f (wholeBytes f 16 s)).1.toNat = field f p (n + r)) := by
  obtain ⟨hlast, hleft, hreads⟩ := wholeBytes_spec (f := f) 16 hstart hbits (by omega)
  have hwhole := fun h => wholeBytes_result 16 hstart hbits hresult hq hfits h (by omega)
  generalize wholeBytes f 16 s = t at hlast hleft hreads hwhole ⊢
  have hr : r = 8 * (r / 8) + r % 8 := (Nat.div_add_mod r 8).symm
  by_cases hmore : r % 8 = 0
  · have hcount : (r + 7) / 8 = r / 8 := by omega
    rw [hmore] at hleft
    rw [lastBits, if_neg (by omega), if_neg (by omega), hcount]
    refine ⟨hreads, fun h => ?_⟩
    rw [hwhole h]
    congr 1
    omega
  · have hcount : (r + 7) / 8 = r / 8 + 1 := by omega
    have hindex : (t.start / 8).toNat = (8 * q + 8 * (r / 8)) % 65536 / 8 := by
      rw [hlast, index_eq]
    have hshift : (8 - t.bits).toNat = 8 - r % 8 := by omega
    rw [lastBits, if_pos (by omega), hcount, List.range_succ, List.map_append, ← List.append_assoc, ← hreads]
    refine ⟨congrArg (t.reads ++ [·]) hindex, fun h => ?_⟩
    have hbyte : (t.start / 8).toNat = q + r / 8 := by omega
    have hpart := toNat_tail (f := f) (q := q + r / 8) (r := r % 8) (by omega)
    have happend := toNat_append (m := r % 8) (by omega) (by omega) (hwhole h)
      (hpart.trans (congrArg (field f · _) (show 8 * (q + r / 8) = p + (n + 8 * (r / 8)) by omega)))
    dsimp only
    rw [hbyte, hshift, hleft, Int.toNat_natCast, happend]
    congr 1
    omega

/-- The value of the field, from bytes that hold a bit of it. -/
def Extracts (buf : ℕ → UInt8) (start : UInt16) (b : ℕ) : Prop :=
  (getbits buf start b).1.toNat = field buf start.toNat b ∧
    ∀ i ∈ (getbits buf start b).2, ∃ n < b, (start.toNat + n) / 8 = i

/-- What is left of a field behind its first `n` bits, at byte `q`. -/
theorem extracts_iff_of_boundary {buf : ℕ → UInt8} {start : UInt16} {b q r n : ℕ} (reads : List ℕ)
    (hpos : 1 ≤ b) (hb : b ≤ 32) (hn : n < 8)
    (hq : start.toNat + n = 8 * q) (hr : n + r = b)
    (hreads : ∀ i ∈ reads, ∃ n < b, (start.toNat + n) / 8 = i)
    (heq : getbits buf start b =
      lastBits buf (wholeBytes buf 16 ⟨.ofNat (field buf start.toNat n), .ofNat (8 * q), r, reads⟩)) :
    Extracts buf start b ↔ start.toNat + b ≤ 65536 := by
  have hlt := start.toNat_lt
  have hfield : field buf start.toNat n < 2 ^ 32 :=
    Nat.lt_of_lt_of_le (field_lt _ _) (Nat.pow_le_pow_right (by decide) (by omega))
  obtain ⟨hall, hvalue⟩ := lastBits_spec (f := buf)
    (s := ⟨.ofNat (field buf start.toNat n), .ofNat (8 * q), r, reads⟩) (p := start.toNat) (n := n)
    rfl rfl (by rw [UInt32.toNat_ofNat', Nat.mod_eq_of_lt hfield]) hq (by omega)
  rw [Extracts, heq, hall]
  constructor
  · -- A field that goes on behind bit 65535 reads the first byte, and no bit of it is there.
    rintro ⟨-, h⟩
    by_contra hover
    have hzero : 0 ∈ (List.range ((r + 7) / 8)).map fun j => (8 * q + 8 * j) % 65536 / 8 :=
      List.mem_map.mpr ⟨8192 - q, List.mem_range.mpr (by omega), by omega⟩
    obtain ⟨m, hm, hbyte⟩ := h 0 (List.mem_append_right _ hzero)
    omega
  · intro h
    refine ⟨by rw [hvalue (by omega), hr], fun i hi => ?_⟩
    rcases List.mem_append.mp hi with hi | hi
    · exact hreads i hi
    · obtain ⟨j, hj, rfl⟩ := List.mem_map.mp hi
      have hj' := List.mem_range.mp hj
      exact ⟨n + 8 * j, by omega, by omega⟩

/-- A field is extracted as long as the position behind it is a number of 16 bits. Behind bit 65535 comes bit
0 of the buffer. -/
theorem getbits_iff (buf : ℕ → UInt8) (start : UInt16) {b : ℕ} (hpos : 1 ≤ b) (hb : b ≤ 32) :
    Extracts buf start b ↔ start.toNat + b ≤ 65536 := by
  have hlt := start.toNat_lt
  obtain ⟨q, k, hk, hstart⟩ : ∃ q k, k < 8 ∧ start.toNat = 8 * q + k :=
    ⟨start.toNat / 8, start.toNat % 8, Nat.mod_lt _ (by decide), (Nat.div_add_mod _ _).symm⟩
  rcases Nat.eq_zero_or_pos k with rfl | hkpos
  · have hmod : start % 8 = 0 := by
      rw [← UInt16.toNat_inj, UInt16.toNat_mod, hstart]
      exact Nat.mul_mod_right ..
    have heq : start = .ofNat (8 * q) := by
      rw [← UInt16.toNat_inj, UInt16.toNat_ofNat', hstart]
      omega
    apply extracts_iff_of_boundary (n := 0) (r := b) [] hpos hb (by decide) hstart
      (Nat.zero_add b) (by simp)
    rw [getbits, unalignedStart, if_neg (not_not.mpr hmod), ← heq]
    rfl
  · have hmem : ∀ i ∈ [q], ∃ n < b, (start.toNat + n) / 8 = i := by
      intro i hi
      rw [List.mem_singleton.mp hi]
      exact ⟨0, by omega, by omega⟩
    have hspec := unalignedStart_spec (f := buf) (b := b) hstart hkpos hk
    by_cases hend : k + b < 8
    · have hneg : ((b : ℤ) - (8 - k : ℕ)) < 0 := by omega
      have hshift : (-((b : ℤ) - (8 - k : ℕ))).toNat = 8 - k - b := by omega
      rw [Extracts, getbits, hspec, wholeBytes]
      dsimp only
      rw [if_neg (by omega), lastBits]
      dsimp only
      rw [if_neg (by omega), if_pos hneg, hshift, toNat_inside hend]
      rw [hstart] at hmem ⊢
      exact iff_of_true ⟨rfl, hmem⟩ (by omega)
    · have hhead := toNat_head (f := buf) (q := q) hk
      apply extracts_iff_of_boundary (n := 8 - k) (q := q + 1) (r := b - (8 - k)) _ hpos hb (by omega)
        (by omega) (by omega) hmem
      rw [getbits, hspec, hstart, ← hhead, UInt32.ofNat_toNat, Nat.cast_sub (n := b) (by omega)]

/-- The four bits in the middle of the byte `0x5a`. -/
theorem getbits_inside : (getbits (fun _ => 90) 2 4).1.toNat = 6 :=
  ((getbits_iff (fun _ => 90) 2 (b := 4) (by decide) (by decide)).mpr (by decide)).1

/-- Two bits at the end of the first 8192 bytes: the second one is taken from the first byte. -/
theorem not_getbits : ¬∀ (buf : ℕ → UInt8) (length : ℕ) (start : UInt16) (b : ℕ), 1 ≤ b → b ≤ 32 →
    start.toNat + b ≤ 8 * length → Extracts buf start b := by
  intro h
  have := h (fun _ => 0) 8193 65535 2 (by decide) (by decide) (by decide)
  exact absurd ((getbits_iff _ _ (by decide) (by decide)).mp this) (by decide)

end NoDiskEmu.Sd
