import ScriptToGo.Proofs.Text.Literal

/-! What stands between two quotes, and where the text of an interpolation ends. -/
namespace ScriptToGo
open Text

def IsQuote (c : Char) : Prop := c ∈ ['"', '\'', '\x60']

instance : DecidablePred IsQuote := fun c => inferInstanceAs (Decidable (c ∈ _))

/-- What may stand between two quotes: a backslash takes in the character after it, and the quote
stands nowhere else. -/
inductive Quoted (quote : Char) : List Char → Prop
  | nil : Quoted quote []
  | escape {e cs} : Quoted quote cs → Quoted quote ('\\' :: e :: cs)
  | char {c cs} : c ≠ quote → c ≠ '\\' → Quoted quote cs → Quoted quote (c :: cs)

theorem IsQuote.ne_backslash (is : IsQuote quote) : quote ≠ '\\' := by
  simp only [IsQuote, List.mem_cons, List.not_mem_nil, or_false] at is
  rcases is with rfl | rfl | rfl <;> decide

variable {quote : Char} {cs more : List Char}

theorem Quoted.append (first : Quoted quote cs) (next : Quoted quote more) :
    Quoted quote (cs ++ more) := by
  induction first with
  | nil => exact next
  | escape _ ih => exact .escape ih
  | char other plain _ ih => exact .char other plain ih

/-- Characters that are neither the quote nor a backslash may stand between quotes. -/
theorem Quoted.of_plain (plain : ∀ c ∈ cs, c ≠ quote ∧ c ≠ '\\') : Quoted quote cs := by
  induction cs with
  | nil => exact .nil
  | cons c rest ih =>
    obtain ⟨here, later⟩ := List.forall_mem_cons.1 plain
    exact .char here.1 here.2 (ih later)

/-- Characters without the quote may stand in front of a closed brace, which a backslash at their
end takes in. -/
theorem Quoted.skip {cs : List Char} (noQuote : quote ∉ cs) (other : '\x7d' ≠ quote)
    (next : Quoted quote more) : Quoted quote (cs ++ '\x7d' :: more) := by
  match cs with
  | [] => exact .char other (by decide) next
  | [c] =>
    by_cases plain : c = '\\'
    · exact plain ▸ .escape next
    · exact .char (fun is => noQuote (is ▸ List.mem_singleton_self c)) plain
        (.char other (by decide) next)
  | c :: e :: rest =>
    obtain ⟨here, later⟩ := not_or.1 (mt List.mem_cons.2 noQuote)
    by_cases plain : c = '\\'
    · exact plain ▸ .escape (Quoted.skip (mt (List.mem_cons_of_mem e) later) other next)
    · exact .char (Ne.symm here) plain (Quoted.skip later other next)
termination_by cs.length

namespace SourceLiteral

theorem plain_of_code? {digits : List Char} {code : Nat} (read : code? digits = some code)
    (is : IsQuote quote) : ∀ c ∈ digits, c ≠ quote ∧ c ≠ '\\' := by
  intro c mem
  obtain ⟨value, found⟩ := exists_digit_of_code? read c mem
  have noDigits : digit? '"' = none ∧ digit? '\'' = none ∧ digit? '\x60' = none ∧
    digit? '\\' = none := by decide
  simp only [IsQuote, List.mem_cons, List.not_mem_nil, or_false] at is
  refine ⟨?_, ?_⟩
  · rintro rfl
    rcases is with rfl | rfl | rfl <;> simp [noDigits] at found
  · rintro rfl
    simp [noDigits] at found

theorem low?_quoted {low : Nat} (is : IsQuote quote) (h : low? cs = some low) :
    ∃ taken after, cs = taken ++ after ∧ taken.length = 6 ∧ Quoted quote taken := by
  rw [low?] at h
  split at h
  next front =>
    obtain ⟨left, rfl⟩ := List.isPrefixOf_iff_prefix.1 front
    obtain ⟨leading, -⟩ := Option.filter_eq_some_iff.1 h
    obtain ⟨digits, after, whole, four, read⟩ := exists_of_leadingCode? leading
    change left = digits ++ after at whole
    subst whole
    exact ⟨'\\' :: 'u' :: digits, after, rfl, congrArg (· + 2) four,
      .escape (.of_plain (plain_of_code? read is))⟩
  · cases h

theorem braced?_quoted {code n : Nat} (is : IsQuote quote) (h : braced? cs = some (code, n)) :
    ∃ taken after, cs = taken ++ after ∧ taken.length = n ∧ Quoted quote taken := by
  rw [braced?] at h
  split at h
  next inside =>
    obtain ⟨value, read, same⟩ := Option.map_eq_some_iff.1 h
    obtain ⟨-, rfl⟩ := Prod.mk.inj same
    have whole := List.takeWhile_append_dropWhile (p := (· ≠ '\x7d')) (l := cs)
    have stop := List.head?_dropWhile_not (· ≠ '\x7d') cs
    cases left : cs.dropWhile (· ≠ '\x7d') with
    | nil =>
      rw [left, List.append_nil] at whole
      exact absurd (congrArg List.length whole) (Nat.ne_of_lt inside.2)
    | cons c after =>
      rw [left] at whole stop
      obtain rfl : c = '\x7d' := by simpa using stop
      refine ⟨cs.takeWhile (· ≠ '\x7d') ++ ['\x7d'], after, ?_, ?_, ?_⟩
      · rw [List.append_assoc]
        exact whole.symm
      · rw [List.length_append, List.length_singleton]
      · refine (Quoted.of_plain (plain_of_code? read is)).append (.char ?_ (by decide) .nil)
        rintro rfl
        exact absurd is (by decide)
  · cases h

theorem codePoint?_quoted {mark : Char} {code n : Nat} (is : IsQuote quote)
    (h : codePoint? mark cs = some (code, n)) :
    ∃ taken after, cs = taken ++ after ∧ taken.length = n ∧ Quoted quote taken := by
  rw [codePoint?] at h
  split at h
  next =>
    obtain ⟨value, leading, same⟩ := Option.map_eq_some_iff.1 h
    obtain ⟨rfl, rfl⟩ := Prod.mk.inj same
    obtain ⟨digits, after, rfl, two, read⟩ := exists_of_leadingCode? leading
    exact ⟨digits, after, rfl, two, .of_plain (plain_of_code? read is)⟩
  split at h
  next brace =>
    obtain ⟨⟨value, length⟩, closed, same⟩ := Option.map_eq_some_iff.1 h
    obtain ⟨rfl, rfl⟩ := Prod.mk.inj same
    obtain ⟨left, rfl⟩ := List.head?_eq_some_iff.1 brace
    obtain ⟨taken, after, whole, rfl, quoted⟩ := braced?_quoted is closed
    change left = taken ++ after at whole
    subst whole
    refine ⟨'\x7b' :: taken, after, rfl, rfl, .char ?_ (by decide) quoted⟩
    rintro rfl
    exact absurd is (by decide)
  next =>
    obtain ⟨unit, leading, found⟩ := Option.bind_eq_some_iff.1 h
    obtain ⟨digits, after, rfl, four, read⟩ := exists_of_leadingCode? leading
    have front : Quoted quote digits := .of_plain (plain_of_code? read is)
    split at found
    next =>
      obtain ⟨low, second, same⟩ := Option.map_eq_some_iff.1 found
      obtain ⟨rfl, rfl⟩ := Prod.mk.inj same
      obtain ⟨taken, left, whole, six, quoted⟩ := low?_quoted is second
      rw [← four, List.drop_left] at whole
      subst whole
      refine ⟨digits ++ taken, left, (List.append_assoc ..).symm, ?_, front.append quoted⟩
      rw [List.length_append, four, six]
    next =>
      obtain ⟨rfl, rfl⟩ := Prod.mk.inj (Option.some.inj found)
      exact ⟨digits, after, rfl, four, front⟩

/-- An escape sequence takes the character after its backslash, and then none that ends a literal. -/
theorem sequence?_quoted {text : List Char} {n : Nat} (is : IsQuote quote)
    (h : sequence? cs = some (text, n)) (later : Quoted quote (cs.drop n)) :
    Quoted quote ('\\' :: cs) := by
  cases cs with
  | nil => cases h
  | cons c rest =>
    suffices takes : ∃ taken after, rest = taken ++ after ∧ n = taken.length + 1 ∧
        Quoted quote taken by
      obtain ⟨taken, after, rfl, rfl, quoted⟩ := takes
      rw [List.drop_succ_cons, List.drop_left] at later
      exact .escape (quoted.append later)
    have single (one : n = 1) : ∃ taken after, rest = taken ++ after ∧ n = taken.length + 1 ∧
        Quoted quote taken := ⟨[], rest, rfl, one, .nil⟩
    rw [sequence?] at h
    split at h
    next =>
      obtain ⟨-, rfl⟩ := Prod.mk.inj (Option.some.inj h)
      split
      next lineEnd =>
        obtain ⟨left, rfl⟩ := List.head?_eq_some_iff.1 lineEnd
        refine ⟨['\n'], left, rfl, rfl, .char ?_ (by decide) .nil⟩
        rintro rfl
        exact absurd is (by decide)
      next noEnd => exact ⟨[], rest, rfl, rfl, .nil⟩
    split at h
    next => exact single (Prod.mk.inj (Option.some.inj h)).2.symm
    split at h
    next =>
      obtain ⟨⟨code, length⟩, found, named⟩ := Option.bind_eq_some_iff.1 h
      obtain ⟨value, -, same⟩ := Option.map_eq_some_iff.1 named
      obtain ⟨-, rfl⟩ := Prod.mk.inj same
      obtain ⟨taken, after, rfl, rfl, quoted⟩ := codePoint?_quoted is found
      exact ⟨taken, after, rfl, rfl, quoted⟩
    split at h
    next =>
      split at h
      next => exact single (Prod.mk.inj (Option.some.inj h)).2.symm
      next => cases h
    next => exact single (Prod.mk.inj (Option.some.inj h)).2.symm

/-- A literal that stops at a quote has a text that may stand between two such quotes. -/
theorem quoted_of_value {stops : List (List Char)} {text : List Char} (is : IsQuote quote)
    (stop : [quote] ∈ stops) (h : value stops cs = some text) : Quoted quote cs := by
  induction cs using value.induct stops generalizing text with
  | case1 => exact .nil
  | case2 c rest stopped =>
    rw [value, if_pos stopped] at h
    cases h
  | case3 rest goesOn ih =>
    rw [value, if_neg goesOn, if_pos rfl] at h
    obtain ⟨⟨front, n⟩, found, left⟩ := Option.bind_eq_some_iff.1 h
    obtain ⟨others, later, -⟩ := Option.map_eq_some_iff.1 left
    exact sequence?_quoted is found (ih n later)
  | case4 c rest goesOn plain ih =>
    rw [value, if_neg goesOn, if_neg plain] at h
    obtain ⟨others, later, -⟩ := Option.map_eq_some_iff.1 h
    refine .char ?_ plain (ih later)
    rintro rfl
    exact goesOn (List.any_eq_true.2 ⟨_, stop, by simp⟩)

end SourceLiteral

/-- The characters that the end of an interpolation hangs on: braces and quotes. -/
def marks : List Char := ['\x7b', '\x7d', '"', '\'', '\x60']

def IsMark (c : Char) : Prop := c ∈ marks

instance : DecidablePred IsMark := fun c => inferInstanceAs (Decidable (c ∈ marks))

/-- A text leads from one depth of braces to another. Braces between quotes do not count, those
in comments do. -/
inductive Passes : Nat → List Char → Nat → Prop
  | nil {depth} : Passes depth [] depth
  | char {depth stop c cs} : ¬IsMark c → Passes depth cs stop → Passes depth (c :: cs) stop
  | opening {depth stop cs} : Passes (depth + 1) cs stop → Passes depth ('\x7b' :: cs) stop
  | closing {depth stop cs} : Passes depth cs stop → Passes (depth + 1) ('\x7d' :: cs) stop
  | quoted {depth stop quote body cs} : IsQuote quote → Quoted quote body → Passes depth cs stop →
      Passes depth (quote :: (body ++ quote :: cs)) stop

variable {quote : Char} {depth between stop : Nat} {cs more inner after body : List Char}

theorem Passes.append (first : Passes depth cs between) (next : Passes between more stop) :
    Passes depth (cs ++ more) stop := by
  induction first with
  | nil => exact next
  | char plain _ ih => exact .char plain (ih next)
  | opening _ ih => exact .opening (ih next)
  | closing _ ih => exact .closing (ih next)
  | quoted quote body _ ih =>
    rw [List.cons_append, List.append_assoc]
    exact .quoted quote body (ih next)

theorem Passes.of_unmarked (unmarked : ∀ c ∈ cs, ¬IsMark c) : Passes depth cs depth := by
  induction cs with
  | nil => exact .nil
  | cons c rest ih =>
    obtain ⟨here, later⟩ := List.forall_mem_cons.1 unmarked
    exact .char here (ih later)

/-- What is found in a text that goes on after `front`. -/
def behind (front : List Char) (found : Option (List Char × List Char)) :
    Option (List Char × List Char) := found.map fun (inner, after) => (front ++ inner, after)

theorem behind_nil (found : Option (List Char × List Char)) : behind [] found = found := by
  cases found <;> rfl

theorem behind_append (front next : List Char) (found : Option (List Char × List Char)) :
    behind (front ++ next) found = behind front (behind next found) := by
  cases found with
  | none => rfl
  | some parts => simp [behind]

section

variable (c : Char) (cs : List Char) (depth : Nat)

theorem splitHole_escape (quote e : Char) :
    splitHole (some quote) depth ('\\' :: e :: cs)
      = behind ['\\', e] (splitHole (some quote) depth cs) := by
  rw [splitHole.eq_def]
  simp only [↓reduceIte]
  rfl

theorem splitHole_inside {quote c : Char} (other : c ≠ quote) (plain : c ≠ '\\') :
    splitHole (some quote) depth (c :: cs) = behind [c] (splitHole (some quote) depth cs) := by
  rw [splitHole.eq_def]
  simp only [other, plain, ↓reduceIte]
  rfl

theorem splitHole_unquote {quote : Char} (plain : quote ≠ '\\') :
    splitHole (some quote) depth (quote :: cs) = behind [quote] (splitHole none depth cs) := by
  rw [splitHole.eq_def]
  simp only [plain, ↓reduceIte]
  rfl

theorem splitHole_quote {quote : Char} (is : IsQuote quote) :
    splitHole none depth (quote :: cs) = behind [quote] (splitHole (some quote) depth cs) := by
  rw [splitHole.eq_def]
  simp only [IsQuote, List.mem_cons, List.not_mem_nil, or_false] at is
  rcases is with rfl | rfl | rfl <;> rfl

theorem splitHole_unmarked {c : Char} (plain : ¬IsMark c) :
    splitHole none depth (c :: cs) = behind [c] (splitHole none depth cs) := by
  simp only [IsMark, marks, List.mem_cons, List.not_mem_nil, or_false, not_or] at plain
  rw [splitHole.eq_def]
  simp only [plain, false_and, false_or, ↓reduceIte]
  rfl

theorem splitHole_opening :
    splitHole none depth ('\x7b' :: cs) = behind ['\x7b'] (splitHole none (depth + 1) cs) := by
  rw [splitHole.eq_def]
  rfl

theorem splitHole_closing :
    splitHole none (depth + 1) ('\x7d' :: cs) = behind ['\x7d'] (splitHole none depth cs) := by
  rw [splitHole.eq_def]
  rfl

theorem splitHole_end : splitHole none 0 ('\x7d' :: cs) = some ([], cs) := by
  rw [splitHole.eq_def]
  rfl

end

theorem Quoted.splitHole (is : IsQuote quote) (h : Quoted quote body) :
    splitHole (some quote) depth (body ++ quote :: cs)
      = behind (body ++ [quote]) (splitHole none depth cs) := by
  induction h with
  | nil => exact splitHole_unquote cs depth is.ne_backslash
  | @escape e rest _ ih =>
    rw [List.cons_append, List.cons_append, splitHole_escape, ih, ← behind_append]
    rfl
  | @char c rest other plain _ ih =>
    rw [List.cons_append, splitHole_inside _ _ other plain, ih, ← behind_append]
    rfl

/-- The end of an interpolation is looked for behind a text that leads to another depth. -/
theorem Passes.splitHole (h : Passes depth cs stop) :
    splitHole none depth (cs ++ more) = behind cs (splitHole none stop more) := by
  induction h with
  | nil => exact (behind_nil _).symm
  | @char depth stop c rest plain _ ih =>
    rw [List.cons_append, splitHole_unmarked _ _ plain, ih, ← behind_append]
    rfl
  | @opening depth stop rest _ ih =>
    rw [List.cons_append, splitHole_opening, ih, ← behind_append]
    rfl
  | @closing depth stop rest _ ih =>
    rw [List.cons_append, splitHole_closing, ih, ← behind_append]
    rfl
  | @quoted depth stop quote body rest is body _ ih =>
    rw [List.cons_append, List.append_assoc, List.cons_append, splitHole_quote _ _ is,
      body.splitHole is, ih, ← behind_append, ← behind_append]
    simp

/-- What is read up to the end of an interpolation: first the rest of what stands between quotes, if
a quote is open. -/
def Reads (depth : Nat) (inner : List Char) : Option Char → Prop
  | none => Passes depth inner 0
  | some quote => ∃ body rest, inner = body ++ quote :: rest ∧ Quoted quote body ∧ Passes depth rest 0

theorem reads_of_splitHole {quote? : Option Char} (quotes : ∀ q ∈ quote?, IsQuote q)
    (h : splitHole quote? depth cs = some (inner, after)) : Reads depth inner quote? := by
  fun_induction splitHole quote? depth cs generalizing inner after with
  | case1 => cases h
  | case2 => cases h
  | case3 depth q e rest ih =>
    obtain ⟨⟨front, left⟩, found, same⟩ := Option.map_eq_some_iff.1 h
    obtain ⟨rfl, rfl⟩ := Prod.mk.inj same
    obtain ⟨body, tail, rfl, quoted, passes⟩ := ih quotes found
    exact ⟨_, tail, rfl, quoted.escape, passes⟩
  | case4 depth c rest q plain ih =>
    obtain ⟨⟨front, left⟩, found, same⟩ := Option.map_eq_some_iff.1 h
    obtain ⟨rfl, rfl⟩ := Prod.mk.inj same
    by_cases closes : c = q
    · subst closes
      rw [if_pos rfl] at ih
      exact ⟨[], front, rfl, .nil, ih (by simp) (by rwa [if_pos rfl] at found)⟩
    · rw [if_neg closes] at ih
      obtain ⟨body, tail, rfl, quoted, passes⟩ := ih quotes (by rwa [if_neg closes] at found)
      exact ⟨_, tail, rfl, .char closes plain quoted, passes⟩
  | case5 depth c rest close =>
    obtain ⟨rfl, rfl⟩ := Prod.mk.inj (Option.some.inj h)
    rw [close.2]
    exact .nil
  | case6 depth c rest noClose quote =>
    rename_i next ih
    obtain ⟨⟨front, left⟩, found, same⟩ := Option.map_eq_some_iff.1 h
    obtain ⟨rfl, rfl⟩ := Prod.mk.inj same
    by_cases isQuote : IsQuote c
    · have opens : quote = some c := if_pos (by simpa [IsQuote] using isQuote)
      have noBrace : c ≠ '\x7b' ∧ c ≠ '\x7d' := by
        constructor <;> rintro rfl <;> simp [IsQuote] at isQuote
      have same : next = depth := (if_neg noBrace.1).trans (if_neg noBrace.2)
      rw [opens, same] at ih found
      obtain ⟨body, tail, rfl, quoted, passes⟩ := ih (by simpa using isQuote) found
      exact .quoted isQuote quoted passes
    · have closed : quote = none := if_neg (by simpa [IsQuote] using isQuote)
      rw [closed] at ih found
      have passes : Passes next front 0 := ih quotes found
      by_cases opens : c = '\x7b'
      · subst opens
        exact .opening passes
      · by_cases closes : c = '\x7d'
        · subst closes
          obtain ⟨less, rfl⟩ := Nat.exists_eq_succ_of_ne_zero fun none => noClose ⟨rfl, none⟩
          exact .closing passes
        · have same : next = depth := (if_neg opens).trans (if_neg closes)
          refine .char ?_ (same ▸ passes)
          simp_all [IsMark, marks, IsQuote]

/-- The end of an interpolation is right behind a text just when this leads back to no open brace. -/
theorem splitHole_eq_some_iff :
    splitHole none 0 cs = some (inner, after) ↔
      cs = inner ++ '\x7d' :: after ∧ Passes 0 inner 0 := by
  constructor
  · intro h
    exact ⟨splitHole_eq h, reads_of_splitHole (by simp) h⟩
  · rintro ⟨rfl, passes⟩
    rw [passes.splitHole, splitHole_end]
    simp [behind]

end ScriptToGo
