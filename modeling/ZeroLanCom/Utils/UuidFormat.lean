import Mathlib.Data.List.Forall2
import ZeroLanCom.Utils.Message

/-!
# The format of node identifiers

Thirty-two digits and four hyphens at fixed places. The version and the variant
of an identifier are always the same; every other bit of the draws can be read
back from it.
-/

namespace ZeroLanCom

/-- `0` to `9`, or `a` to `f`. -/
def IsLowerHexDigit (c : UInt8) : Prop := 48 ≤ c ∧ c ≤ 57 ∨ 97 ≤ c ∧ c ≤ 102

/-- The value of a digit. -/
def hexValue (c : UInt8) : UInt8 := if c < 58 then c - 48 else c - 87

/-- A small byte is one of finitely many. -/
theorem byte_cases {P : UInt8 → Prop} {k : Nat} (h : ∀ n < k, P (UInt8.ofNat n)) {d : UInt8}
    (hd : d.toNat < k) : P d := by
  rw [← UInt8.ofNat_toNat (x := d)]
  exact h d.toNat hd

/-- What `hexDigit` prints is a hexadecimal digit in lower case. -/
theorem isLowerHexDigit_hexDigit {d : UInt8} (hd : d.toNat < 16) :
    IsLowerHexDigit (hexDigit d) := by
  apply byte_cases (P := fun d => IsLowerHexDigit (hexDigit d)) _ hd
  unfold IsLowerHexDigit
  decide

/-- It is read back as what was printed. -/
theorem hexValue_hexDigit {d : UInt8} (hd : d.toNat < 16) : hexValue (hexDigit d) = d := by
  apply byte_cases (P := fun d => hexValue (hexDigit d) = d) _ hd
  decide

/-- The upper four bits of a byte. -/
theorem toNat_high (b : UInt8) : (b >>> 4).toNat = b.toNat / 16 := by
  rw [UInt8.toNat_shiftRight, Nat.shiftRight_eq_div_pow]
  rfl

/-- And the lower four. -/
theorem toNat_low (b : UInt8) : (b &&& 0x0F).toNat = b.toNat % 16 := by
  rw [UInt8.toNat_and]
  exact Nat.and_two_pow_sub_one_eq_mod b.toNat 4

/-- The upper four bits make up one digit. -/
theorem high_lt (b : UInt8) : (b >>> 4).toNat < 16 := by
  have hb := b.toNat_lt
  rw [toNat_high]
  omega

/-- And so do the lower four. -/
theorem low_lt (b : UInt8) : (b &&& 0x0F).toNat < 16 := by
  rw [toNat_low]
  omega

/-- A hyphen is not a digit. -/
theorem not_isLowerHexDigit_hyphen : ¬ IsLowerHexDigit 45 := by
  unfold IsLowerHexDigit
  decide

/-- A byte is printed in hexadecimal digits only. -/
theorem mem_hexByte {b c : UInt8} (h : c ∈ hexByte b) : IsLowerHexDigit c := by
  rw [hexByte, List.mem_cons, List.mem_singleton] at h
  rcases h with rfl | rfl
  · exact isLowerHexDigit_hexDigit (high_lt b)
  · exact isLowerHexDigit_hexDigit (low_lt b)

/-- Both halves of a byte are read back from its digits. -/
theorem hexByte_injective : Function.Injective hexByte := by
  intro a b h
  simp only [hexByte, List.cons.injEq, and_true] at h
  have hhigh := congrArg hexValue h.1
  have hlow := congrArg hexValue h.2
  rw [hexValue_hexDigit (high_lt a), hexValue_hexDigit (high_lt b), ← UInt8.toNat_inj,
    toNat_high, toNat_high] at hhigh
  rw [hexValue_hexDigit (low_lt a), hexValue_hexDigit (low_lt b), ← UInt8.toNat_inj,
    toNat_low, toNat_low] at hlow
  apply UInt8.toNat_inj.mp
  omega

/-- Two digits for every byte leave no doubt about the bytes. -/
theorem flatMap_hexByte_injective : Function.Injective (List.flatMap hexByte) := by
  intro bs bs' h
  induction bs generalizing bs' with
  | nil =>
    cases bs' with
    | nil => rfl
    | cons b' bs' => cases h
  | cons b bs ih =>
    cases bs' with
    | nil => cases h
    | cons b' bs' =>
      rw [List.flatMap_cons, List.flatMap_cons] at h
      obtain ⟨hb, hbs⟩ := List.append_inj h rfl
      rw [hexByte_injective hb, ih hbs]

/-- What stands between the bytes is a hyphen. -/
theorem mem_uuidSeparator {i : Nat} {c : UInt8} (h : c ∈ uuidSeparator i) : c = 45 := by
  have hhyphen : ascii "-" = [45] := by decide
  unfold uuidSeparator at h
  split_ifs at h
  · rw [hhyphen] at h
    exact List.mem_singleton.mp h
  · cases h

/-- Without the hyphens the text consists of the digits of its bytes. -/
theorem filter_formatted (bs : Bytes) (n : Nat) :
    ((bs.zipIdx n).flatMap fun p => hexByte p.1 ++ uuidSeparator p.2).filter (· ≠ 45) =
      bs.flatMap hexByte := by
  induction bs generalizing n with
  | nil => rfl
  | cons b bs ih =>
    have hdigits : (hexByte b).filter (· ≠ 45) = hexByte b := by
      rw [List.filter_eq_self]
      intro c hc
      have hdigit := mem_hexByte hc
      refine decide_eq_true fun hhyphen => ?_
      exact not_isLowerHexDigit_hyphen (hhyphen ▸ hdigit)
    have hseparator : (uuidSeparator n).filter (· ≠ 45) = [] := by
      rw [List.filter_eq_nil_iff]
      intro c hc
      simp [mem_uuidSeparator hc]
    rw [List.zipIdx_cons, List.flatMap_cons, List.filter_append, List.filter_append, hdigits,
      hseparator, List.append_nil, ih, List.flatMap_cons]

/-- Which places are hyphens: two digits for each byte, and then its separator. -/
def hyphenPlaces (n count : Nat) : List Bool :=
  (List.range' n count).flatMap fun i => [false, false] ++ (uuidSeparator i).map fun _ => true

/-- What stands at a place. -/
def StandsAt (hyphen : Bool) (c : UInt8) : Prop :=
  if hyphen then c = 45 else IsLowerHexDigit c

/-- Byte by byte the digits and hyphens stand where the places say. -/
theorem formatted_places (bs : Bytes) (n : Nat) :
    List.Forall₂ StandsAt (hyphenPlaces n bs.length)
      ((bs.zipIdx n).flatMap fun p => hexByte p.1 ++ uuidSeparator p.2) := by
  induction bs generalizing n with
  | nil => exact .nil
  | cons b bs ih =>
    have hdigits : List.Forall₂ StandsAt [false, false] (hexByte b) :=
      .cons (isLowerHexDigit_hexDigit (high_lt b))
        (.cons (isLowerHexDigit_hexDigit (low_lt b)) .nil)
    have hseparator : List.Forall₂ StandsAt ((uuidSeparator n).map fun _ => true)
        (uuidSeparator n) := by
      rw [List.forall₂_map_left_iff, List.forall₂_same]
      exact fun c hc => mem_uuidSeparator hc
    rw [hyphenPlaces, List.length_cons, List.range'_succ, List.flatMap_cons, List.zipIdx_cons,
      List.flatMap_cons]
    exact List.rel_append (List.rel_append hdigits hseparator) (ih (n + 1))

/-- The places of the hyphens. -/
def IsHyphenPlace (i : Nat) : Prop := i = 8 ∨ i = 13 ∨ i = 18 ∨ i = 23

instance (i : Nat) : Decidable (IsHyphenPlace i) :=
  inferInstanceAs (Decidable (i = 8 ∨ i = 13 ∨ i = 18 ∨ i = 23))

/-- A version 4 UUID in lower case. -/
structure IsUuidV4 (s : UUID) : Prop where
  length : s.length = 36
  hyphen : ∀ i, s[i]? = some 45 ↔ IsHyphenPlace i
  digit : ∀ i c, s[i]? = some c → ¬ IsHyphenPlace i → IsLowerHexDigit c
  version : s[14]? = some 52
  variant : ∃ c ∈ ascii "89ab", s[19]? = some c

/-- Sixteen bytes have their hyphens where a UUID has them. -/
theorem hyphenPlaces_iff {i : Nat} (hi : i < 36) :
    (hyphenPlaces 0 16)[i]? = some true ↔ IsHyphenPlace i := by
  have hall : ∀ i < 36, (hyphenPlaces 0 16)[i]? = some true ↔ IsHyphenPlace i := by decide
  exact hall i hi

section Draws

variable (r₀ r₁ r₂ r₃ : UInt32)

/-- Every place holds what belongs there. -/
theorem generateUUID_place {i : Nat} (hi : i < 36) :
    ∃ c, (generateUUID r₀ r₁ r₂ r₃)[i]? = some c ∧
      (IsHyphenPlace i ∧ c = 45 ∨ ¬ IsHyphenPlace i ∧ IsLowerHexDigit c) := by
  have hplaces : List.Forall₂ StandsAt (hyphenPlaces 0 16) (generateUUID r₀ r₁ r₂ r₃) :=
    formatted_places (uuidBytes r₀ r₁ r₂ r₃) 0
  have hlength := length_generateUUID r₀ r₁ r₂ r₃
  have hstands := hplaces.get (i := i) (by rw [hplaces.length_eq, hlength]; exact hi)
    (by rw [hlength]; exact hi)
  refine ⟨_, List.getElem?_eq_getElem (by rw [hlength]; exact hi), ?_⟩
  have hplace := hyphenPlaces_iff hi
  rw [List.getElem?_eq_getElem (by rw [hplaces.length_eq, hlength]; exact hi),
    Option.some.injEq] at hplace
  rw [List.get_eq_getElem, List.get_eq_getElem, StandsAt] at hstands
  split_ifs at hstands with hhyphen
  · exact Or.inl ⟨hplace.mp hhyphen, hstands⟩
  · exact Or.inr ⟨mt hplace.mpr hhyphen, hstands⟩

/-- The upper half of the byte that holds the version. -/
theorem version_high (b : UInt8) : ((b &&& 0x0F) ||| 0x40) >>> 4 = 4 := by
  have hzero : ((0x0F : UInt8) >>> 4) = 0 := rfl
  rw [UInt8.shiftRight_or, UInt8.shiftRight_and, hzero, UInt8.and_zero]
  rfl

/-- The upper half of the byte that holds the variant. -/
theorem variant_high (b : UInt8) : ((b &&& 0x3F) ||| 0x80) >>> 4 = ((b >>> 4) &&& 3) ||| 8 := by
  rw [UInt8.shiftRight_or, UInt8.shiftRight_and]
  rfl

/-- The two bits of the variant leave four digits. -/
theorem hexDigit_variant (d : UInt8) : hexDigit ((d &&& 3) ||| 8) ∈ ascii "89ab" := by
  have hlow : (d &&& 3).toNat < 4 := by
    have hmod : (d &&& 3).toNat = d.toNat % 4 := by
      rw [UInt8.toNat_and]
      exact Nat.and_two_pow_sub_one_eq_mod d.toNat 2
    omega
  apply byte_cases (P := fun e => hexDigit (e ||| 8) ∈ ascii "89ab") _ hlow
  decide

/-- Whatever has been drawn, the result is a UUID of version 4. -/
theorem isUuidV4_generateUUID : IsUuidV4 (generateUUID r₀ r₁ r₂ r₃) := by
  have hlength := length_generateUUID r₀ r₁ r₂ r₃
  refine ⟨hlength, ?_, ?_, ?_, ?_⟩
  · intro i
    by_cases hi : i < 36
    · obtain ⟨c, hc, ⟨hplace, rfl⟩ | ⟨hplace, hdigit⟩⟩ := generateUUID_place r₀ r₁ r₂ r₃ hi
      · exact iff_of_true hc hplace
      · refine iff_of_false (fun hhyphen => ?_) hplace
        rw [hc] at hhyphen
        cases hhyphen
        exact not_isLowerHexDigit_hyphen hdigit
    · rw [List.getElem?_eq_none (by omega)]
      unfold IsHyphenPlace
      simp only [reduceCtorEq, false_iff]
      omega
  · intro i c hc hplace
    obtain ⟨hi, _⟩ := List.getElem?_eq_some_iff.mp hc
    obtain ⟨c', hc', ⟨hplace', _⟩ | ⟨_, hdigit⟩⟩ :=
      generateUUID_place r₀ r₁ r₂ r₃ (hlength ▸ hi)
    · exact absurd hplace' hplace
    · rw [hc] at hc'
      cases hc'
      exact hdigit
  · have hplace : (generateUUID r₀ r₁ r₂ r₃)[14]? =
        some (hexDigit ((((r₁ >>> 8).toUInt8 &&& 0x0F) ||| 0x40) >>> 4)) := rfl
    rw [hplace, version_high]
    rfl
  · have hplace : (generateUUID r₀ r₁ r₂ r₃)[19]? =
        some (hexDigit ((((r₂ >>> 24).toUInt8 &&& 0x3F) ||| 0x80) >>> 4)) := rfl
    rw [variant_high] at hplace
    exact ⟨_, hexDigit_variant _, hplace⟩

end Draws

/-- All bits of the second draw but the four of the version. -/
def versionMask : UInt32 := 0xFFFF0FFF

/-- All bits of the third draw but the two of the variant. -/
def variantMask : UInt32 := 0x3FFFFFFF

/-- Four bytes in a row determine the word they were stored from. -/
theorem be32_injective : Function.Injective be32 := by
  intro x y h
  rw [← readBe32_be32 x [], ← readBe32_be32 y [], h]

/-- Words are masked byte by byte. -/
theorem be32_and (x y : UInt32) : be32 (x &&& y) = List.zipWith (· &&& ·) (be32 x) (be32 y) := by
  simp only [be32, UInt32.shiftRight_and, UInt32.toUInt8_and, List.zipWith_cons_cons,
    List.zipWith_nil_left]

/-- Setting bits outside of a mask loses nothing under it. -/
theorem and_or_inj {m k : UInt8} (h : k &&& m = 0) {x y : UInt8} :
    (x &&& m) ||| k = (y &&& m) ||| k ↔ x &&& m = y &&& m := by
  have hmask : ∀ z : UInt8, ((z &&& m) ||| k) &&& m = z &&& m := by
    intro z
    have hdistrib : ((z &&& m) ||| k) &&& m = (z &&& m &&& m) ||| (k &&& m) :=
      UInt8.toBitVec_inj.mp BitVec.and_or_distrib_right
    rw [hdistrib, h, UInt8.or_zero, UInt8.and_assoc, UInt8.and_self]
  constructor
  · intro heq
    rw [← hmask x, ← hmask y, heq]
  · intro heq
    rw [heq]

/-- Nothing is masked out by all ones. -/
theorem and_ones (x : UInt8) : x &&& 0xFF = x := UInt8.and_neg_one

/-- The second word of an identifier. -/
def versionWord (r : UInt32) : Bytes := (be32 r).modify 2 fun b => (b &&& 0x0F) ||| 0x40

/-- The third word. -/
def variantWord (r : UInt32) : Bytes := (be32 r).modify 0 fun b => (b &&& 0x3F) ||| 0x80

/-- A word is four bytes long. -/
theorem length_be32 (r : UInt32) : (be32 r).length = 4 := rfl

/-- So is the one that carries the version, -/
theorem length_versionWord (r : UInt32) : (versionWord r).length = 4 := rfl

/-- and the one that carries the variant. -/
theorem length_variantWord (r : UInt32) : (variantWord r).length = 4 := rfl

/-- The second word shows all bits of its draw but the version. -/
theorem versionWord_eq_iff {x y : UInt32} :
    versionWord x = versionWord y ↔ x &&& versionMask = y &&& versionMask := by
  have hmask : be32 versionMask = [0xFF, 0xFF, 0x0F, 0xFF] := by decide
  rw [← be32_injective.eq_iff, be32_and, be32_and, hmask]
  simp only [versionWord, be32, List.modify_succ_cons, List.modify_zero_cons,
    List.zipWith_cons_cons, List.zipWith_nil_left, List.cons.injEq, and_ones,
    and_or_inj (m := 0x0F) (k := 0x40) rfl]

/-- The third word shows all bits of its draw but the variant. -/
theorem variantWord_eq_iff {x y : UInt32} :
    variantWord x = variantWord y ↔ x &&& variantMask = y &&& variantMask := by
  have hmask : be32 variantMask = [0x3F, 0xFF, 0xFF, 0xFF] := by decide
  rw [← be32_injective.eq_iff, be32_and, be32_and, hmask]
  simp only [variantWord, be32, List.modify_zero_cons, List.zipWith_cons_cons,
    List.zipWith_nil_left, List.cons.injEq, and_ones, and_or_inj (m := 0x3F) (k := 0x80) rfl]

section Draws

variable {r₀ r₁ r₂ r₃ s₀ s₁ s₂ s₃ : UInt32}

/-- The bytes of an identifier, word by word. -/
theorem uuidBytes_eq_words (r₀ r₁ r₂ r₃ : UInt32) :
    uuidBytes r₀ r₁ r₂ r₃ = be32 r₀ ++ (versionWord r₁ ++ (variantWord r₂ ++ be32 r₃)) := rfl

/-- The bytes of two UUIDs agree exactly if their draws agree outside of the six fixed bits. -/
theorem uuidBytes_eq_iff :
    uuidBytes r₀ r₁ r₂ r₃ = uuidBytes s₀ s₁ s₂ s₃ ↔ r₀ = s₀ ∧
      r₁ &&& versionMask = s₁ &&& versionMask ∧ r₂ &&& variantMask = s₂ &&& variantMask ∧
        r₃ = s₃ := by
  have hfirst := (length_be32 r₀).trans (length_be32 s₀).symm
  have hversion := (length_versionWord r₁).trans (length_versionWord s₁).symm
  have hvariant := (length_variantWord r₂).trans (length_variantWord s₂).symm
  rw [uuidBytes_eq_words, uuidBytes_eq_words, List.append_eq_append_iff_of_size_eq_left hfirst,
    List.append_eq_append_iff_of_size_eq_left hversion,
    List.append_eq_append_iff_of_size_eq_left hvariant, be32_injective.eq_iff,
    versionWord_eq_iff, variantWord_eq_iff, be32_injective.eq_iff]

/-- Draws give the same identifier exactly if they agree on all bits but the version and the
variant. -/
theorem generateUUID_eq_iff :
    generateUUID r₀ r₁ r₂ r₃ = generateUUID s₀ s₁ s₂ s₃ ↔ r₀ = s₀ ∧
      r₁ &&& versionMask = s₁ &&& versionMask ∧ r₂ &&& variantMask = s₂ &&& variantMask ∧
        r₃ = s₃ := by
  rw [← uuidBytes_eq_iff]
  constructor
  · intro h
    apply flatMap_hexByte_injective
    rw [← filter_formatted _ 0, ← filter_formatted _ 0]
    exact congrArg (List.filter (· ≠ 45)) h
  · intro h
    rw [generateUUID, h, generateUUID]

end Draws

end ZeroLanCom
