import ScriptToGo.Proofs.Token.Ascii

/-! The forms that an escape sequence can take, and that each of them is read as it is meant. -/
namespace ScriptToGo.Escape

def AllHex (digits : List Char) : Prop := ∀ c ∈ digits, isHexDigit c = true

def IsHighSurrogate (unit : Nat) : Prop := 0xD800 ≤ unit ∧ unit < 0xDC00

def IsLowSurrogate (unit : Nat) : Prop := 0xDC00 ≤ unit ∧ unit < 0xE000

/-- After a backslash, the character `c` and then `taken` make an escape sequence in front of
`after`; a Go literal has `out` for it. -/
inductive Rewrites : Char → List Char → List Char → List Char → Prop
  | lineEnd {c after} : c = '\n' ∨ c = '\u2028' ∨ c = '\u2029' → Rewrites c [] after []
  | carriageReturn {after} : after.head? ≠ some '\n' → Rewrites '\r' [] after []
  | lineEndPair {after} : Rewrites '\r' ['\n'] after []
  | bare {c after} : c = '\'' ∨ c = '\x60' ∨ c = '$' → Rewrites c [] after [c]
  | kept {c after} : c ∈ ['\\', '"', 'n', 'r', 't', 'b', 'f', 'v'] → Rewrites c [] after ['\\', c]
  | zero {after} : after.head?.any Text.isDigit = false → Rewrites '0' [] after (byteEscape 0)
  | byte {digits after} : digits.length = 2 → AllHex digits →
      Rewrites 'x' digits after
        (if hexNumber digits < 0x80 then byteEscape (hexNumber digits)
          else codeEscape (hexNumber digits))
  | unit {digits after} : digits.length = 4 → AllHex digits → (hexNumber digits).isValidChar →
      Rewrites 'u' digits after (codeEscape (hexNumber digits))
  | pair {high low after} : high.length = 4 → AllHex high → IsHighSurrogate (hexNumber high) →
      low.length = 4 → AllHex low → IsLowSurrogate (hexNumber low) →
      Rewrites 'u' (high ++ '\\' :: 'u' :: low) after
        (codeEscape (0x10000 + (hexNumber high - 0xD800) * 1024 + (hexNumber low - 0xDC00)))
  | braced {digits after} : digits ≠ [] → AllHex digits → (hexNumber digits).isValidChar →
      Rewrites 'u' ('\x7b' :: digits ++ ['\x7d']) after (codeEscape (hexNumber digits))
  | other {c after} : c ∉ ['\n', '\u2028', '\u2029', '\r', '\'', '\x60', '$', '\\', '"', 'n', 'r',
      't', 'b', 'f', 'v', 'x', 'u'] → Text.isDigit c = false → Rewrites c [] after [c]

theorem leadingHex_prefix (limit : Nat) (cs : List Char) : leadingHex limit cs <+: cs :=
  (List.takeWhile_prefix isHexDigit).trans (List.take_prefix limit cs)

theorem allHex_leadingHex (limit : Nat) (cs : List Char) : AllHex (leadingHex limit cs) :=
  fun _ mem => List.mem_takeWhile_imp mem

/-- As many digits as are looked for are found where they stand in front. -/
theorem leadingHex_append {digits : List Char} (hex : AllHex digits) (after : List Char) :
    leadingHex digits.length (digits ++ after) = digits := by
  rw [leadingHex, List.take_left, List.takeWhile_eq_self_iff]
  exact hex

theorem exists_of_leadingHex {limit : Nat} {cs : List Char}
    (full : (leadingHex limit cs).length = limit) :
    ∃ digits after, cs = digits ++ after ∧ digits.length = limit ∧ AllHex digits := by
  obtain ⟨after, whole⟩ := leadingHex_prefix limit cs
  exact ⟨leadingHex limit cs, after, whole.symm, full, allHex_leadingHex limit cs⟩

theorem isHexDigit_iff {c : Char} : isHexDigit c = true ↔ ∃ value, hexValue? c = some value := by
  rw [isHexDigit, Option.isSome_iff_exists]

theorem le_foldl_hex (value : Nat) (digits : List Char) :
    value ≤ digits.foldl (fun value c => value * 16 + (hexValue? c).getD 0) value := by
  induction digits generalizing value with
  | nil => exact Nat.le_refl _
  | cons c rest ih =>
    have grows : value ≤ value * 16 + (hexValue? c).getD 0 := by omega
    exact Nat.le_trans grows (ih _)

theorem boundedHex_prefix (value : Nat) (cs : List Char) : boundedHex value cs <+: cs := by
  induction cs generalizing value with
  | nil => exact List.prefix_refl _
  | cons c rest ih =>
    rw [boundedHex]
    split
    · exact List.nil_prefix
    · dsimp only
      split
      · exact List.cons_prefix_cons.2 ⟨rfl, ih _⟩
      · exact List.cons_prefix_cons.2 ⟨rfl, List.nil_prefix⟩

theorem allHex_boundedHex (value : Nat) (cs : List Char) : AllHex (boundedHex value cs) := by
  induction cs generalizing value with
  | nil => exact List.forall_mem_nil _
  | cons c rest ih =>
    rw [boundedHex]
    split
    · exact List.forall_mem_nil _
    next digit found =>
      have hex : isHexDigit c = true := isHexDigit_iff.2 ⟨digit, found⟩
      dsimp only
      split
      · exact List.forall_mem_cons.2 ⟨hex, ih _⟩
      · exact List.forall_mem_cons.2 ⟨hex, List.forall_mem_nil _⟩

/-- Digits whose value fits are all read, up to the character that is no digit. -/
theorem boundedHex_append {value : Nat} {digits : List Char} {stop : Char} (after : List Char)
    (hex : AllHex digits) (noDigit : isHexDigit stop = false)
    (fits : digits.foldl (fun value c => value * 16 + (hexValue? c).getD 0) value < 0x100000000) :
    boundedHex value (digits ++ stop :: after) = digits := by
  induction digits generalizing value with
  | nil =>
    have none : hexValue? stop = none := by
      rwa [isHexDigit, Option.isSome_eq_false_iff, Option.isNone_iff_eq_none] at noDigit
    rw [List.nil_append, boundedHex, none]
  | cons c rest ih =>
    obtain ⟨first, others⟩ := List.forall_mem_cons.1 hex
    obtain ⟨digit, found⟩ := isHexDigit_iff.1 first
    rw [List.foldl_cons, found, Option.getD_some] at fits
    have below := Nat.lt_of_le_of_lt (le_foldl_hex _ rest) fits
    rw [List.cons_append, boundedHex, found]
    dsimp only
    rw [if_pos below, ih others fits]

theorem lt_of_isValidChar {code : Nat} (valid : code.isValidChar) : code < 0x110000 := by
  rcases valid with below | ⟨-, below⟩
  · omega
  · exact below

theorem readByte_rewrites {cs out : List Char} {extra : Nat} (h : readByte cs = ⟨.ok out, extra⟩) :
    ∃ taken after, cs = taken ++ after ∧ taken.length = extra ∧ Rewrites 'x' taken after out := by
  rw [readByte] at h
  dsimp only at h
  split at h
  next full =>
    obtain ⟨digits, after, rfl, two, hex⟩ := exists_of_leadingHex full
    rw [← two, leadingHex_append hex] at h
    cases h
    exact ⟨digits, after, rfl, rfl, .byte two hex⟩
  · cases h

theorem readBraced_rewrites {cs out : List Char} {extra : Nat}
    (h : readBraced cs = ⟨.ok out, extra⟩) :
    ∃ taken after, '\x7b' :: cs = taken ++ after ∧ taken.length = extra ∧
      Rewrites 'u' taken after out := by
  obtain ⟨left, whole⟩ := boundedHex_prefix 0 cs
  have hex := allHex_boundedHex 0 cs
  rw [readBraced] at h
  generalize boundedHex 0 cs = digits at h whole hex
  subst whole
  split at h
  next closed =>
    obtain ⟨some, -, brace⟩ := closed
    rw [List.drop_left] at brace
    obtain ⟨after, rfl⟩ := List.head?_eq_some_iff.1 brace
    split at h
    next valid =>
      cases h
      refine ⟨'\x7b' :: digits ++ ['\x7d'], after, by simp, by simp, .braced some hex valid⟩
    · cases h
  · cases h

theorem lowSurrogate?_rewrites {cs : List Char} {low : Nat} (h : lowSurrogate? cs = some low) :
    ∃ digits after, cs = '\\' :: 'u' :: digits ++ after ∧ digits.length = 4 ∧ AllHex digits ∧
      IsLowSurrogate (hexNumber digits) ∧ low = hexNumber digits := by
  rw [lowSurrogate?.eq_def] at h
  split at h
  next rest =>
    dsimp only at h
    split at h
    next found =>
      obtain ⟨full, range⟩ := found
      obtain ⟨digits, after, rfl, four, hex⟩ := exists_of_leadingHex full
      rw [← four, leadingHex_append hex] at range h
      exact ⟨digits, after, rfl, four, hex, range, (Option.some.inj h).symm⟩
    · cases h
  · cases h

theorem readUnit_rewrites {cs out : List Char} {extra : Nat} (h : readUnit cs = ⟨.ok out, extra⟩) :
    ∃ taken after, cs = taken ++ after ∧ taken.length = extra ∧ Rewrites 'u' taken after out := by
  rw [readUnit] at h
  dsimp only at h
  split at h
  next full =>
    obtain ⟨digits, after, rfl, four, hex⟩ := exists_of_leadingHex full
    have read : leadingHex 4 (digits ++ after) = digits := four ▸ leadingHex_append hex after
    have left : (digits ++ after).drop 4 = after := four ▸ List.drop_left
    rw [read, left] at h
    split at h
    next low found =>
      split at found
      next high =>
        obtain ⟨lowDigits, after, rfl, lowFour, lowHex, range, rfl⟩ := lowSurrogate?_rewrites found
        obtain ⟨same, rfl⟩ := Reading.mk.inj h
        obtain rfl := Except.ok.inj same
        refine ⟨digits ++ '\\' :: 'u' :: lowDigits, after, by simp, ?_,
          .pair four hex high lowFour lowHex range⟩
        rw [List.length_append, List.length_cons, List.length_cons, four, lowFour]
      · cases found
    · split at h
      next valid =>
        cases h
        exact ⟨digits, after, rfl, four, .unit four hex valid⟩
      · cases h
  · cases h

/-- An escape sequence that is read without fault has one of the forms. -/
theorem read_rewrites {c : Char} {rest out : List Char} {extra : Nat}
    (h : read c rest = ⟨.ok out, extra⟩) :
    ∃ taken after, rest = taken ++ after ∧ taken.length = extra ∧ Rewrites c taken after out := by
  rw [read] at h
  split at h
  next lineEnd =>
    cases h
    exact ⟨[], rest, rfl, rfl, .lineEnd lineEnd⟩
  next noLineEnd =>
  split at h
  next carriage =>
    subst carriage
    cases h
    split
    next newline =>
      obtain ⟨after, rfl⟩ := List.head?_eq_some_iff.1 newline
      exact ⟨['\n'], after, rfl, rfl, .lineEndPair⟩
    next other => exact ⟨[], rest, rfl, rfl, .carriageReturn other⟩
  next noCarriage =>
  split at h
  next bare =>
    cases h
    exact ⟨[], rest, rfl, rfl, .bare bare⟩
  next notBare =>
  split at h
  next kept =>
    cases h
    exact ⟨[], rest, rfl, rfl, .kept kept⟩
  next notKept =>
  split at h
  next zero =>
    obtain ⟨rfl, noDigit⟩ := zero
    cases h
    exact ⟨[], rest, rfl, rfl, .zero noDigit⟩
  split at h
  · cases h
  next noDigit =>
  split at h
  next byte =>
    subst byte
    exact readByte_rewrites h
  next noByte =>
  split at h
  next unicode =>
    subst unicode
    split at h
    next brace =>
      obtain ⟨inside, rfl⟩ := List.head?_eq_some_iff.1 brace
      exact readBraced_rewrites h
    · exact readUnit_rewrites h
  next noUnicode =>
    cases h
    refine ⟨[], rest, rfl, rfl, .other ?_ (Bool.not_eq_true _ ▸ noDigit)⟩
    simp only [List.mem_cons, List.not_mem_nil, or_false, not_or] at noLineEnd notBare notKept ⊢
    simp [noLineEnd, noCarriage, notBare, notKept, noByte, noUnicode]

theorem exists_rewrites {c : Char} {rest out : List Char} (h : (read c rest).outcome = .ok out) :
    ∃ taken after, rest = taken ++ after ∧ taken.length = (read c rest).extra ∧
      Rewrites c taken after out := by
  apply read_rewrites
  rw [← h]

theorem readBraced_append {digits : List Char} (after : List Char) (some : digits ≠ [])
    (hex : AllHex digits) (valid : (hexNumber digits).isValidChar) :
    readBraced (digits ++ '\x7d' :: after)
      = ⟨.ok (codeEscape (hexNumber digits)), digits.length + 2⟩ := by
  have fits : hexNumber digits < 0x100000000 :=
    Nat.lt_trans (lt_of_isValidChar valid) (by decide)
  have all : boundedHex 0 (digits ++ '\x7d' :: after) = digits :=
    boundedHex_append after hex (by decide) fits
  rw [readBraced, all]
  simp [some, fits, valid]

theorem readUnit_append {digits : List Char} (after : List Char) (four : digits.length = 4)
    (hex : AllHex digits) (valid : (hexNumber digits).isValidChar) :
    readUnit (digits ++ after) = ⟨.ok (codeEscape (hexNumber digits)), 4⟩ := by
  have read : leadingHex 4 (digits ++ after) = digits := four ▸ leadingHex_append hex after
  have single : ¬(0xD800 ≤ hexNumber digits ∧ hexNumber digits < 0xDC00) := by
    rcases valid with below | ⟨above, -⟩ <;> omega
  rw [readUnit, read]
  simp only [four, single, valid, ↓reduceIte]

theorem lowSurrogate?_append {digits : List Char} (after : List Char) (four : digits.length = 4)
    (hex : AllHex digits) (low : IsLowSurrogate (hexNumber digits)) :
    lowSurrogate? ('\\' :: 'u' :: digits ++ after) = some (hexNumber digits) := by
  have read : leadingHex 4 (digits ++ after) = digits := four ▸ leadingHex_append hex after
  have range : 0xDC00 ≤ hexNumber digits ∧ hexNumber digits < 0xE000 := low
  rw [List.cons_append, List.cons_append, lowSurrogate?, read]
  simp only [four, range, and_self, ↓reduceIte]

theorem readUnit_append_pair {high low : List Char} (after : List Char) (four : high.length = 4)
    (hex : AllHex high) (isHigh : IsHighSurrogate (hexNumber high)) (lowFour : low.length = 4)
    (lowHex : AllHex low) (isLow : IsLowSurrogate (hexNumber low)) :
    readUnit (high ++ ('\\' :: 'u' :: low ++ after)) =
      ⟨.ok (codeEscape (0x10000 + (hexNumber high - 0xD800) * 1024 + (hexNumber low - 0xDC00))),
        10⟩ := by
  have read : leadingHex 4 (high ++ ('\\' :: 'u' :: low ++ after)) = high :=
    four ▸ leadingHex_append hex _
  have left : (high ++ ('\\' :: 'u' :: low ++ after)).drop 4 = '\\' :: 'u' :: low ++ after :=
    four ▸ List.drop_left
  have range : 0xD800 ≤ hexNumber high ∧ hexNumber high < 0xDC00 := isHigh
  rw [readUnit, read, left, lowSurrogate?_append after lowFour lowHex isLow]
  simp only [four, range, and_self, ↓reduceIte]

theorem read_byte (rest : List Char) : read 'x' rest = readByte rest := by
  simp [read, Text.isDigit]

theorem read_braced (inside : List Char) : read 'u' ('\x7b' :: inside) = readBraced inside := by
  simp [read, Text.isDigit]

theorem AllHex.head?_ne {digits : List Char} {c : Char} (hex : AllHex digits) (some : digits ≠ [])
    (noDigit : isHexDigit c = false) (after : List Char) : (digits ++ after).head? ≠ .some c := by
  obtain ⟨first, rest, rfl⟩ := List.exists_cons_of_ne_nil some
  intro same
  have is := (List.forall_mem_cons.1 hex).1
  rw [Option.some.inj same, noDigit] at is
  cases is

theorem read_unit {digits : List Char} (after : List Char) (some : digits ≠ [])
    (hex : AllHex digits) : read 'u' (digits ++ after) = readUnit (digits ++ after) := by
  have noBrace := hex.head?_ne some (by decide : isHexDigit '\x7b' = false) after
  generalize digits ++ after = rest at noBrace
  simp [read, Text.isDigit, noBrace]

theorem read_other {c : Char} (rest : List Char)
    (other : c ∉ ['\n', '\u2028', '\u2029', '\r', '\'', '\x60', '$', '\\', '"', 'n', 'r', 't',
      'b', 'f', 'v', 'x', 'u']) (noDigit : Text.isDigit c = false) :
    read c rest = ⟨.ok [c], 0⟩ := by
  simp only [List.mem_cons, List.not_mem_nil, or_false, not_or] at other
  have noZero : c ≠ '0' := by
    rintro rfl
    exact absurd noDigit (by decide)
  simp [read, other, noDigit, noZero]

/-- Each of the forms is read without fault, and no further than it goes. -/
theorem Rewrites.read_append {c : Char} {taken after out : List Char}
    (h : Rewrites c taken after out) : read c (taken ++ after) = ⟨.ok out, taken.length⟩ := by
  cases h with
  | lineEnd is => rw [read, if_pos is]; rfl
  | carriageReturn other => simp [read, other]
  | lineEndPair => simp [read]
  | bare is => rcases is with rfl | rfl | rfl <;> simp [read]
  | kept is =>
    simp only [List.mem_cons, List.not_mem_nil, or_false] at is
    rcases is with rfl | rfl | rfl | rfl | rfl | rfl | rfl | rfl <;> simp [read]
  | zero noDigit => simp [read, noDigit]
  | byte two hex =>
    have full : leadingHex 2 (taken ++ after) = taken := two ▸ leadingHex_append hex after
    rw [read_byte, readByte, full]
    simp only [two, ↓reduceIte]
  | unit four hex valid =>
    rw [read_unit after (List.ne_nil_of_length_eq_add_one four) hex,
      readUnit_append after four hex valid, four]
  | @pair high low _ four hex isHigh lowFour lowHex isLow =>
    rw [List.append_assoc, read_unit _ (List.ne_nil_of_length_eq_add_one four) hex,
      readUnit_append_pair after four hex isHigh lowFour lowHex isLow, List.length_append,
      List.length_cons, List.length_cons, four, lowFour]
  | @braced digits _ some hex valid =>
    rw [List.cons_append, List.cons_append, List.append_assoc, read_braced, List.singleton_append,
      readBraced_append after some hex valid, List.length_cons, List.length_append]
    rfl
  | other is noDigit => exact read_other after is noDigit

/-- What follows an escape sequence matters only in its first character, and may be missing. -/
theorem Rewrites.before {c : Char} {taken after other out : List Char}
    (h : Rewrites c taken after out) (front : other.head? = none ∨ other.head? = after.head?) :
    Rewrites c taken other out := by
  cases h with
  | lineEnd is => exact .lineEnd is
  | carriageReturn noPair =>
    apply Rewrites.carriageReturn
    rcases front with none | same
    · rw [none]
      intro newline
      cases newline
    · rwa [same]
  | lineEndPair => exact .lineEndPair
  | bare is => exact .bare is
  | kept is => exact .kept is
  | zero noDigit =>
    apply Rewrites.zero
    rcases front with none | same
    · rw [none]
      rfl
    · rwa [same]
  | byte two hex => exact .byte two hex
  | unit four hex valid => exact .unit four hex valid
  | pair four hex high lowFour lowHex low => exact .pair four hex high lowFour lowHex low
  | braced some hex valid => exact .braced some hex valid
  | other is noDigit => exact .other is noDigit

theorem Rewrites.append {c : Char} {taken after out : List Char} (h : Rewrites c taken after out)
    (more : List Char) (stops : after ≠ []) : Rewrites c taken (after ++ more) out := by
  obtain ⟨next, rest, rfl⟩ := List.exists_cons_of_ne_nil stops
  exact h.before (.inr rfl)

theorem Rewrites.shorten {c : Char} {taken after more out : List Char}
    (h : Rewrites c taken (after ++ more) out) : Rewrites c taken after out := by
  cases after with
  | nil => exact h.before (.inl rfl)
  | cons next rest => exact h.before (.inr rfl)

theorem Rewrites.byteLength_taken {c : Char} {taken after out : List Char}
    (h : Rewrites c taken after out) : Text.byteLength taken = taken.length := by
  have ascii := (read_ascii c (taken ++ after)).2
  rw [h.read_append, List.take_left] at ascii
  exact Text.byteLength_of_ascii ascii

end ScriptToGo.Escape
