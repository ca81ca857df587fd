import Mathlib.Data.List.TakeWhile
import ZeroLanCom.Utils.Event
import ZeroLanCom.Utils.Text

/-!
# The port of a bound socket

ZeroMQ reports the endpoint of a socket as text. `getBoundPort` cuts it at the
last colon and leaves the rest to `std::stoi`, which skips blanks, takes a sign
and stops at the first character that is no digit.
-/

namespace ZeroLanCom

/-- `isspace` of the C locale. -/
def isSpace (b : UInt8) : Bool := b = 32 || (9 ≤ b && b ≤ 13)

/-- `isdigit`. -/
def isDigit (b : UInt8) : Bool := 48 ≤ b && b ≤ 57

/-- The number that digit characters stand for, the most significant one first. -/
def readDigits (digits : Str) : Nat :=
  Nat.ofDigits 10 (digits.map fun b => b.toNat - 48).reverse

/-- The optional sign in front of the digits, and what follows it. -/
def readSign : Str → Bool × Str
  | [] => (false, [])
  | b :: s => if b = 45 then (true, s) else if b = 43 then (false, s) else (false, b :: s)

/-- The number with its sign. -/
def signed (negative : Bool) (n : Nat) : Int := if negative then -n else n

/-- `std::stoi`. -/
def stoi (s : Str) : Except Exn Int32 :=
  let (negative, s) := readSign (s.dropWhile isSpace)
  let digits := s.takeWhile isDigit
  let value := signed negative (readDigits digits)
  if digits = [] then .error .stdException -- std::invalid_argument
  else if value < Int32.minValue.toInt ∨ Int32.maxValue.toInt < value then
    .error .stdException -- std::out_of_range
  else .ok (Int32.ofInt value)

/-- `endpoint.rfind(':')`, and `endpoint.substr(pos + 1)` behind it. -/
def afterLastColon (endpoint : Str) : Option Str :=
  if 58 ∈ endpoint then some (endpoint.reverse.takeWhile (· ≠ 58)).reverse else none

/-- `getBoundPort`, by the last endpoint of the socket. -/
def getBoundPort (endpoint : Str) : Except Exn Int32 :=
  match afterLastColon endpoint with
  | none => .error .stdException -- "Invalid endpoint: "
  | some port => stoi port

/-- The text is a numeral: blanks, a sign, digits, and then no further digit. -/
def IsNumeral (text : Str) (value : Int) : Prop :=
  ∃ blanks sign digits rest negative, text = blanks ++ (sign ++ (digits ++ rest)) ∧
    (∀ b ∈ blanks, isSpace b = true) ∧
    (sign = [45] ∧ negative = true ∨ (sign = [] ∨ sign = [43]) ∧ negative = false) ∧
    digits ≠ [] ∧ (∀ b ∈ digits, isDigit b = true) ∧ (∀ b ∈ rest.head?, isDigit b = false) ∧
    value = signed negative (readDigits digits)

/-- Every text splits where a scan stops. -/
theorem exists_scan {α : Type*} (p : α → Bool) (l : List α) :
    ∃ front rest, l = front ++ rest ∧ (∀ a ∈ front, p a = true) ∧
      (∀ a ∈ rest.head?, p a = false) ∧ l.takeWhile p = front ∧ l.dropWhile p = rest := by
  refine ⟨_, _, List.takeWhile_append_dropWhile.symm, fun a ha => List.mem_takeWhile_imp ha, ?_,
    rfl, rfl⟩
  intro a ha
  have hhead := List.head?_dropWhile_not p l
  rw [Option.mem_def.mp ha] at hhead
  exact hhead

/-- A scan over the characters of a class stops in front of one that is not of it. -/
theorem scan_append {α : Type*} {p : α → Bool} {front rest : List α}
    (hfront : ∀ a ∈ front, p a = true) (hrest : ∀ a ∈ rest.head?, p a = false) :
    (front ++ rest).takeWhile p = front ∧ (front ++ rest).dropWhile p = rest := by
  have hstop : rest.takeWhile p = [] ∧ rest.dropWhile p = rest := by
    cases rest with
    | nil => exact ⟨rfl, rfl⟩
    | cons a rest => simp [hrest a rfl]
  rw [List.takeWhile_append_of_pos hfront, List.dropWhile_append_of_pos hfront, hstop.1, hstop.2,
    List.append_nil]
  exact ⟨rfl, rfl⟩

/-- The last colon separates a text that has none. -/
theorem afterLastColon_eq_some_iff {endpoint text : Str} :
    afterLastColon endpoint = some text ↔ 58 ∉ text ∧ ∃ front, endpoint = front ++ 58 :: text := by
  unfold afterLastColon
  constructor
  · intro h
    split_ifs at h with hmem
    cases h
    obtain ⟨back, front, hsplit, hback, hhead, hscan, _⟩ :=
      exists_scan (fun b : UInt8 => decide (b ≠ 58)) endpoint.reverse
    rw [hscan]
    refine ⟨fun hcolon => ?_, ?_⟩
    · have hne := hback 58 (List.mem_reverse.mp hcolon)
      simp at hne
    · -- the scan from the end has stopped at a colon
      cases front with
      | nil =>
        have hne := hback 58 (by simpa [hsplit] using List.mem_reverse.mpr hmem)
        simp at hne
      | cons b front =>
        obtain rfl : b = 58 := by simpa using hhead b rfl
        exact ⟨front.reverse, by rw [← List.reverse_reverse endpoint, hsplit]; simp⟩
  · rintro ⟨htext, front, rfl⟩
    have hback : ∀ b ∈ text.reverse, decide (b ≠ 58) = true := by
      intro b hb
      have hne : b ≠ 58 := fun he => htext (he ▸ List.mem_reverse.mp hb)
      exact decide_eq_true hne
    have hscan : (text.reverse ++ 58 :: front.reverse).takeWhile (fun b => decide (b ≠ 58)) =
        text.reverse := (scan_append hback (by simp)).1
    rw [if_pos (by simp), List.reverse_append, List.reverse_cons, List.append_assoc,
      List.singleton_append, hscan, List.reverse_reverse]

/-- No digit is taken for white space or a sign. -/
theorem not_space_of_digit {b : UInt8} (h : isDigit b = true) :
    isSpace b = false ∧ b ≠ 45 ∧ b ≠ 43 := by
  simp only [isDigit, Bool.and_eq_true, decide_eq_true_eq, UInt8.le_iff_toNat_le] at h
  simp only [isSpace, Bool.or_eq_false_iff, Bool.and_eq_false_iff, decide_eq_false_iff_not,
    UInt8.le_iff_toNat_le, ne_eq, ← UInt8.toNat_inj, UInt8.reduceToNat] at h ⊢
  omega

/-- What the scan for a sign makes of a text that starts like a numeral. -/
theorem readSign_append {sign digits r : Str} {negative : Bool}
    (hsign : sign = [45] ∧ negative = true ∨ (sign = [] ∨ sign = [43]) ∧ negative = false)
    (hne : digits ≠ []) (hdigits : ∀ b ∈ digits, isDigit b = true) :
    readSign (sign ++ (digits ++ r)) = (negative, digits ++ r) ∧
      ∀ b ∈ (sign ++ (digits ++ r)).head?, isSpace b = false := by
  rcases hsign with ⟨rfl, rfl⟩ | ⟨rfl | rfl, rfl⟩
  · exact ⟨rfl, by simp [isSpace]⟩
  · cases digits with
    | nil => exact absurd rfl hne
    | cons b digits =>
      obtain ⟨hspace, hminus, hplus⟩ := not_space_of_digit (hdigits b (List.mem_cons_self ..))
      exact ⟨by simp [readSign, hminus, hplus], by simp [hspace]⟩
  · exact ⟨rfl, by simp [isSpace]⟩

/-- Any text has at most a sign in front of the rest. -/
theorem exists_sign (text : Str) : ∃ sign rest negative, text = sign ++ rest ∧
    (sign = [45] ∧ negative = true ∨ (sign = [] ∨ sign = [43]) ∧ negative = false) ∧
    readSign text = (negative, rest) := by
  cases text with
  | nil => exact ⟨[], [], false, rfl, Or.inr ⟨Or.inl rfl, rfl⟩, rfl⟩
  | cons b text =>
    rw [readSign]
    split_ifs with hminus hplus
    · exact ⟨[45], text, true, by rw [hminus]; rfl, Or.inl ⟨rfl, rfl⟩, rfl⟩
    · exact ⟨[43], text, false, by rw [hplus]; rfl, Or.inr ⟨Or.inr rfl, rfl⟩, rfl⟩
    · exact ⟨[], b :: text, false, rfl, Or.inr ⟨Or.inl rfl, rfl⟩, rfl⟩

/-- A value is an `int` exactly if it passes the range test. -/
theorem ofInt_eq_iff {value : Int} {n : Int32} :
    ¬ (value < Int32.minValue.toInt ∨ Int32.maxValue.toInt < value) ∧ Int32.ofInt value = n ↔
      value = n.toInt := by
  simp only [Int32.toInt_minValue, Int32.toInt_maxValue]
  constructor
  · rintro ⟨hrange, rfl⟩
    rw [Int32.toInt_ofInt_of_le] <;> omega
  · rintro rfl
    have hmin := n.le_toInt
    have hmax := n.toInt_lt
    exact ⟨by omega, Int32.ofInt_toInt n⟩

/-- `std::stoi` returns the value of a numeral that is an `int`, and throws on everything else. -/
theorem stoi_eq_ok_iff {text : Str} {n : Int32} : stoi text = .ok n ↔ IsNumeral text n.toInt := by
  obtain ⟨blanks, unsigned, htext, hblanks, hhead, _, hdrop⟩ := exists_scan isSpace text
  obtain ⟨sign, tail, negative, hunsigned, hsign, hread⟩ := exists_sign unsigned
  obtain ⟨digits, rest, htail, hdigits, hstop, htake, _⟩ := exists_scan isDigit tail
  have hstoi : stoi text =
      if digits = [] then .error .stdException
      else if signed negative (readDigits digits) < Int32.minValue.toInt ∨
          Int32.maxValue.toInt < signed negative (readDigits digits) then .error .stdException
      else .ok (Int32.ofInt (signed negative (readDigits digits))) := by
    simp only [stoi, hdrop, hread, htake]
  have hmeets : stoi text = .ok n ↔
      digits ≠ [] ∧ signed negative (readDigits digits) = n.toInt := by
    rw [hstoi, ← ofInt_eq_iff]
    split_ifs with hempty hrange
    · exact iff_of_false (by simp) fun h => h.1 hempty
    · exact iff_of_false (by simp) fun h => h.2.1 hrange
    · rw [Except.ok.injEq]
      exact ⟨fun h => ⟨hempty, hrange, h⟩, fun h => h.2.2⟩
  rw [hmeets]
  constructor
  · rintro ⟨hne, hvalue⟩
    exact ⟨blanks, sign, digits, rest, negative, by rw [htext, hunsigned, htail], hblanks, hsign,
      hne, hdigits, hstop, hvalue.symm⟩
  · rintro ⟨blanks', sign', digits', rest', negative', htext', hblanks', hsign', hne', hdigits',
      hstop', hvalue⟩
    -- the scans find exactly the parts of the numeral
    obtain ⟨hread', hhead'⟩ := readSign_append (r := rest') hsign' hne' hdigits'
    have hdrop' := (scan_append hblanks' hhead').2
    rw [← htext', hdrop] at hdrop'
    rw [← hdrop', hread] at hread'
    obtain ⟨rfl, rfl⟩ := Prod.mk.inj hread'
    have htake' := (scan_append hdigits' hstop').1
    rw [htake] at htake'
    rw [htake']
    exact ⟨hne', hvalue.symm⟩

/-- The bound port is the numeral behind the last colon, if it is an `int`; whatever else the
endpoint looks like, the call throws. -/
theorem getBoundPort_eq_ok_iff {endpoint : Str} {port : Int32} :
    getBoundPort endpoint = .ok port ↔
      ∃ front text, endpoint = front ++ 58 :: text ∧ 58 ∉ text ∧ IsNumeral text port.toInt := by
  unfold getBoundPort
  cases hcut : afterLastColon endpoint with
  | none =>
    refine iff_of_false (by simp) ?_
    rintro ⟨front, text, hendpoint, htext, _⟩
    have hsome := afterLastColon_eq_some_iff.mpr ⟨htext, front, hendpoint⟩
    rw [hcut] at hsome
    cases hsome
  | some text =>
    simp only [stoi_eq_ok_iff]
    obtain ⟨htext, front, hendpoint⟩ := afterLastColon_eq_some_iff.mp hcut
    constructor
    · intro h
      exact ⟨front, text, hendpoint, htext, h⟩
    · rintro ⟨front', text', hendpoint', htext', h⟩
      have hsome := afterLastColon_eq_some_iff.mpr ⟨htext', front', hendpoint'⟩
      rw [hcut, Option.some.injEq] at hsome
      rwa [hsome]

/-- Every number has at least one digit. -/
theorem decimal_ne_nil (n : Nat) : decimal n ≠ [] := by
  unfold decimal decimalDigits
  split_ifs with hzero
  · simp
  · simpa using Nat.digits_ne_nil_iff_ne_zero.mpr hzero

/-- And none of its digits is a colon. -/
theorem colon_notMem_decimal (n : Nat) : 58 ∉ decimal n := by
  intro hcolon
  have hhigh := (decimal_digit hcolon).2
  simp at hhigh

/-- A printed number is a numeral of its value. -/
theorem isNumeral_decimal (n : Nat) : IsNumeral (decimal n) n := by
  refine ⟨[], [], decimal n, [], false, by simp, by simp, Or.inr ⟨Or.inl rfl, rfl⟩, ?_, ?_,
    by simp, ?_⟩
  · exact decimal_ne_nil n
  · intro b hb
    obtain ⟨hlow, hhigh⟩ := decimal_digit hb
    simp only [isDigit, Bool.and_eq_true, decide_eq_true_eq, UInt8.le_iff_toNat_le]
    exact ⟨hlow, Nat.le_of_lt_succ hhigh⟩
  · exact congrArg Nat.cast (ofDigits_decimal n).symm

/-- A port that is widened to an `int` keeps its value. -/
theorem toInt_of_port (port : UInt16) : port.toUInt32.toInt32.toInt = port.toNat := by
  have hport := port.toNat_lt
  rw [Int32.toInt, Int32.toBitVec, BitVec.toInt_eq_toNat_of_lt]
  · rfl
  · change 2 * port.toUInt32.toNat < 2 ^ 32
    rw [UInt16.toNat_toUInt32]
    omega

/-- The port of every endpoint `tcp://ip:port` is read back, whatever the address contains. -/
theorem getBoundPort_tcpUrl (ip : Str) (port : UInt16) :
    getBoundPort (tcpUrl ip port) = .ok port.toUInt32.toInt32 := by
  refine getBoundPort_eq_ok_iff.mpr
    ⟨ascii "tcp://" ++ ip, decimal port.toNat, ?_, colon_notMem_decimal _, ?_⟩
  · have hsep : ascii ":" = [58] := by decide
    simp only [tcpUrl, hsep, List.append_assoc, List.cons_append, List.nil_append]
  · rw [toInt_of_port]
    exact isNumeral_decimal _

/-- Whatever goes wrong is a `std::exception`. -/
theorem getBoundPort_error {endpoint : Str} {e : Exn} (h : getBoundPort endpoint = .error e) :
    e = .stdException := by
  unfold getBoundPort stoi at h
  split at h
  · cases h
    rfl
  · simp only at h
    split_ifs at h <;> cases h <;> rfl

/-- `getBoundPort` returns exactly the numerals behind a last colon that are `int`s, throws on
every other endpoint, and reads the port of every endpoint it is given by ZeroMQ. -/
theorem bound_port_exact :
    (∀ endpoint port, getBoundPort endpoint = .ok port ↔
      ∃ front text, endpoint = front ++ 58 :: text ∧ 58 ∉ text ∧ IsNumeral text port.toInt) ∧
    (∀ endpoint, (∀ port, getBoundPort endpoint ≠ .ok port) →
      getBoundPort endpoint = .error .stdException) ∧
    ∀ ip port, getBoundPort (tcpUrl ip port) = .ok port.toUInt32.toInt32 := by
  refine ⟨fun _ _ => getBoundPort_eq_ok_iff, fun endpoint hnone => ?_, getBoundPort_tcpUrl⟩
  cases hport : getBoundPort endpoint with
  | ok port => exact absurd hport (hnone port)
  | error e => rw [getBoundPort_error hport]

/-- Blanks and a sign are read over, and so is what follows the digits. -/
example : getBoundPort (ascii "tcp://[::1]: +5555;") = .ok 5555 := by decide

end ZeroLanCom
