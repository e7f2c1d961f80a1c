import ScriptToGo.Token.Literal
import ScriptToGo.Proofs.Token.EscapeForms

/-! Reading the inside of a literal, one character or escape sequence at a time, first whatever is wrong
with it and then when nothing is. -/
namespace ScriptToGo

section

variable (start : Nat) {quote : Char} (pos : Nat) (rest : List Char)

theorem scanString_nil :
    scanString start quote pos [] = ⟨.faulty .unterminatedString start pos, pos, []⟩ := by
  rw [scanString.eq_def]

theorem scanString_close :
    scanString start quote pos (quote :: rest) = ⟨.nothing, pos + 1, rest⟩ := by
  rw [scanString.eq_def]
  simp only [↓reduceIte]

theorem scanString_backslash (other : '\\' ≠ quote) :
    scanString start quote pos ['\\'] =
      ⟨.faulty .unterminatedString start (pos + 1), pos + 1, []⟩ := by
  rw [scanString.eq_def]
  simp only [other, ↓reduceIte]

theorem scanString_escape (other : '\\' ≠ quote) (e : Char) :
    scanString start quote pos ('\\' :: e :: rest) =
      let escape := Escape.read e rest
      let next := pos + 1 + e.utf8Size + escape.extra
      (scanString start quote next (rest.drop escape.extra)).writeEscape escape.outcome pos next := by
  rw [scanString.eq_def]
  simp only [other, ↓reduceIte]

theorem scanString_mark (other : '"' ≠ quote) :
    scanString start quote pos ('"' :: rest) =
      (scanString start quote (pos + 1) rest).write ['\\', '"'] := by
  rw [scanString.eq_def]
  simp [other]

theorem scanString_lineEnd (other : '\n' ≠ quote) :
    scanString start quote pos ('\n' :: rest) =
      ⟨.faulty .unterminatedString start (pos + 1), pos + 1, rest⟩ := by
  rw [scanString.eq_def]
  simp [other]

theorem scanString_char {c : Char} (other : c ≠ quote) (plain : c ≠ '\\') (unmarked : c ≠ '"')
    (inLine : c ≠ '\n') :
    scanString start quote pos (c :: rest) =
      (scanString start quote (pos + c.utf8Size) rest).write [c] := by
  rw [scanString.eq_def]
  simp only [other, plain, unmarked, inLine, ↓reduceIte]

/-- The steps in which the inside of a string is read. -/
theorem scanString_induction (quote : Char) {motive : Nat → List Char → Prop}
    (nil : ∀ pos, motive pos [])
    (close : ∀ pos rest, motive pos (quote :: rest))
    (backslash : ∀ pos, '\\' ≠ quote → motive pos ['\\'])
    (escape : ∀ pos e rest, '\\' ≠ quote →
      motive (pos + 1 + e.utf8Size + (Escape.read e rest).extra)
        (rest.drop (Escape.read e rest).extra) →
      motive pos ('\\' :: e :: rest))
    (mark : ∀ pos rest, '"' ≠ quote → motive (pos + 1) rest → motive pos ('"' :: rest))
    (lineEnd : ∀ pos rest, '\n' ≠ quote → motive pos ('\n' :: rest))
    (char : ∀ pos c rest, c ≠ quote → c ≠ '\\' → c ≠ '"' → c ≠ '\n' →
      motive (pos + c.utf8Size) rest → motive pos (c :: rest))
    (pos : Nat) (cs : List Char) : motive pos cs := by
  induction pos, cs using scanString.induct quote with
  | case1 pos => exact nil pos
  | case2 pos rest => exact close pos rest
  | case3 pos other => exact backslash pos other
  | case4 pos e rest _ _ other ih => exact escape pos e rest other ih
  | case5 pos rest other _ ih => exact mark pos rest other ih
  | case6 pos rest other _ _ => exact lineEnd pos rest other
  | case7 pos c rest other plain unmarked inLine ih =>
    exact char pos c rest other plain unmarked inLine ih

theorem scanTemplate_nil :
    scanTemplate start pos [] = ⟨.faulty .unterminatedTemplate start pos, [], pos, []⟩ := by
  rw [scanTemplate.eq_def]

theorem scanTemplate_close :
    scanTemplate start pos ('\x60' :: rest) = ⟨.nothing, [], pos + 1, rest⟩ := by
  rw [scanTemplate.eq_def]
  simp only [↓reduceIte]

theorem scanTemplate_backslash :
    scanTemplate start pos ['\\'] =
      ⟨.faulty .unterminatedTemplate start (pos + 1), [], pos + 1, []⟩ := by
  rw [scanTemplate.eq_def]
  simp

theorem scanTemplate_escape (e : Char) :
    scanTemplate start pos ('\\' :: e :: rest) =
      let escape := Escape.read e rest
      let next := pos + 1 + e.utf8Size + escape.extra
      (scanTemplate start next (rest.drop escape.extra)).writeEscape escape.outcome pos next := by
  rw [scanTemplate.eq_def]
  simp

theorem scanTemplate_unclosed (unclosed : splitHole none 0 rest = none) :
    scanTemplate start pos ('$' :: '\x7b' :: rest) =
      let stop := pos + 2 + Text.byteLength rest
      ⟨.faulty .unterminatedTemplate start stop, [], stop, []⟩ := by
  rw [scanTemplate.eq_def]
  simp only [Char.reduceEq, ↓reduceIte, List.head?_cons, and_self]
  split
  · rfl
  next found =>
    rw [List.drop_succ_cons, List.drop_zero, unclosed] at found
    cases found

theorem scanTemplate_hole {inner after : List Char}
    (closed : splitHole none 0 rest = some (inner, after)) :
    scanTemplate start pos ('$' :: '\x7b' :: rest) =
      (scanTemplate start (pos + 2 + Text.byteLength inner + 1) after).openHole (pos + 2) inner := by
  rw [scanTemplate.eq_def]
  simp only [Char.reduceEq, ↓reduceIte, List.head?_cons, and_self]
  split
  next found =>
    rw [List.drop_succ_cons, List.drop_zero, closed] at found
    cases found
  next found =>
    rw [List.drop_succ_cons, List.drop_zero, closed] at found
    cases found
    rfl

theorem scanTemplate_mark :
    scanTemplate start pos ('"' :: rest) = (scanTemplate start (pos + 1) rest).write ['\\', '"'] := by
  rw [scanTemplate.eq_def]
  simp

theorem scanTemplate_lineEnd :
    scanTemplate start pos ('\n' :: rest) = (scanTemplate start (pos + 1) rest).write ['\\', 'n'] := by
  rw [scanTemplate.eq_def]
  simp

theorem scanTemplate_char {c : Char} (other : c ≠ '\x60') (plain : c ≠ '\\')
    (closed : ¬(c = '$' ∧ rest.head? = some '\x7b')) (unmarked : c ≠ '"') (inLine : c ≠ '\n') :
    scanTemplate start pos (c :: rest) = (scanTemplate start (pos + c.utf8Size) rest).write [c] := by
  rw [scanTemplate.eq_def]
  simp only [other, plain, closed, unmarked, inLine, ↓reduceIte]

/-- The steps in which the inside of a template is read. -/
theorem scanTemplate_induction {motive : Nat → List Char → Prop}
    (nil : ∀ pos, motive pos [])
    (close : ∀ pos rest, motive pos ('\x60' :: rest))
    (backslash : ∀ pos, motive pos ['\\'])
    (escape : ∀ pos e rest,
      motive (pos + 1 + e.utf8Size + (Escape.read e rest).extra)
        (rest.drop (Escape.read e rest).extra) →
      motive pos ('\\' :: e :: rest))
    (unclosed : ∀ pos rest, splitHole none 0 rest = none → motive pos ('$' :: '\x7b' :: rest))
    (hole : ∀ pos rest inner after, splitHole none 0 rest = some (inner, after) →
      motive (pos + 2 + Text.byteLength inner + 1) after → motive pos ('$' :: '\x7b' :: rest))
    (mark : ∀ pos rest, motive (pos + 1) rest → motive pos ('"' :: rest))
    (lineEnd : ∀ pos rest, motive (pos + 1) rest → motive pos ('\n' :: rest))
    (char : ∀ pos c rest, c ≠ '\x60' → c ≠ '\\' → ¬(c = '$' ∧ rest.head? = some '\x7b') →
      c ≠ '"' → c ≠ '\n' → motive (pos + c.utf8Size) rest → motive pos (c :: rest))
    (pos : Nat) (cs : List Char) : motive pos cs := by
  induction pos, cs using scanTemplate.induct with
  | case1 pos => exact nil pos
  | case2 pos rest => exact close pos rest
  | case3 pos _ => exact backslash pos
  | case4 pos e rest _ _ _ ih => exact escape pos e rest ih
  | case5 pos c rest _ _ opening found =>
    obtain ⟨rfl, brace⟩ := opening
    obtain ⟨inside, rfl⟩ := List.head?_eq_some_iff.1 brace
    exact unclosed pos inside found
  | case6 pos c rest _ _ opening inner after found _ ih =>
    obtain ⟨rfl, brace⟩ := opening
    obtain ⟨inside, rfl⟩ := List.head?_eq_some_iff.1 brace
    exact hole pos inside inner after found ih
  | case7 pos rest _ _ _ ih => exact mark pos rest ih
  | case8 pos rest _ _ _ _ ih => exact lineEnd pos rest ih
  | case9 pos c rest other plain closed unmarked inLine ih =>
    exact char pos c rest other plain closed unmarked inLine ih

end

open Escape (Rewrites)

theorem LiteralText.of_writeEscape {outcome : Except SyntaxFault (List Char)} {start stop : Nat}
    {t : LiteralText} (clean : (t.writeEscape outcome start stop).faults = []) :
    ∃ out, outcome = .ok out ∧ t.faults = [] := by
  cases outcome with
  | ok out => exact ⟨out, rfl, clean⟩
  | error fault => cases clean

def StringScan.Clean (s : StringScan) : Prop := s.text.faults = []

/-- Nothing is wrong with the static texts of a template. -/
def TemplateScan.Clean (t : TemplateScan) : Prop :=
  t.head.faults = [] ∧ ∀ hole ∈ t.holes, hole.after.faults = []

section

variable {start : Nat} {quote e : Char} {pos : Nat} {taken after out : List Char}

theorem scanString_rewrites (other : '\\' ≠ quote) (h : Rewrites e taken after out) :
    scanString start quote pos ('\\' :: e :: (taken ++ after)) =
      (scanString start quote (pos + 1 + e.utf8Size + taken.length) after).write out := by
  rw [scanString_escape _ _ _ other, h.read_append]
  dsimp only
  rw [List.drop_left]
  rfl

theorem scanTemplate_rewrites (h : Rewrites e taken after out) :
    scanTemplate start pos ('\\' :: e :: (taken ++ after)) =
      (scanTemplate start (pos + 1 + e.utf8Size + taken.length) after).write out := by
  rw [scanTemplate_escape, h.read_append]
  dsimp only
  rw [List.drop_left]
  rfl

end

theorem scanString_nil_not_clean {start : Nat} {quote : Char} {pos : Nat} :
    ¬(scanString start quote pos []).Clean := by
  rw [scanString_nil]
  intro clean
  cases clean

theorem scanTemplate_nil_not_clean {start pos : Nat} : ¬(scanTemplate start pos []).Clean := by
  rw [scanTemplate_nil]
  intro clean
  cases clean.1

/-- The steps in which the inside of a string is read without fault. -/
theorem scanString_clean_induction {start : Nat} {quote : Char} {motive : Nat → List Char → Prop}
    (close : ∀ pos rest, motive pos (quote :: rest))
    (escape : ∀ pos e taken after out, '\\' ≠ quote → Rewrites e taken after out →
      (scanString start quote (pos + 1 + e.utf8Size + taken.length) after).Clean →
      motive (pos + 1 + e.utf8Size + taken.length) after → motive pos ('\\' :: e :: (taken ++ after)))
    (mark : ∀ pos rest, '"' ≠ quote → motive (pos + 1) rest → motive pos ('"' :: rest))
    (char : ∀ pos c rest, c ≠ quote → c ≠ '\\' → c ≠ '"' → c ≠ '\n' →
      motive (pos + c.utf8Size) rest → motive pos (c :: rest))
    {pos : Nat} {cs : List Char} (clean : (scanString start quote pos cs).Clean) : motive pos cs := by
  induction pos, cs using scanString_induction quote with
  | nil pos => exact absurd clean scanString_nil_not_clean
  | close pos rest => exact close pos rest
  | backslash pos other =>
    rw [scanString_backslash _ _ other] at clean
    cases clean
  | escape pos e rest other ih =>
    rw [scanString_escape _ _ _ other] at clean
    obtain ⟨out, ok, later⟩ := LiteralText.of_writeEscape clean
    obtain ⟨taken, after, rfl, length, rewrites⟩ := Escape.exists_rewrites ok
    rw [← length, List.drop_left] at later ih
    exact escape pos e taken after out other rewrites later (ih later)
  | mark pos rest other ih =>
    rw [scanString_mark _ _ _ other] at clean
    exact mark pos rest other (ih clean)
  | lineEnd pos rest other =>
    rw [scanString_lineEnd _ _ _ other] at clean
    cases clean
  | char pos c rest other plain unmarked inLine ih =>
    rw [scanString_char _ _ _ other plain unmarked inLine] at clean
    exact char pos c rest other plain unmarked inLine (ih clean)

/-- The steps in which the inside of a template is read without fault. -/
theorem scanTemplate_clean_induction {start : Nat} {motive : Nat → List Char → Prop}
    (close : ∀ pos rest, motive pos ('\x60' :: rest))
    (escape : ∀ pos e taken after out, Rewrites e taken after out →
      (scanTemplate start (pos + 1 + e.utf8Size + taken.length) after).Clean →
      motive (pos + 1 + e.utf8Size + taken.length) after → motive pos ('\\' :: e :: (taken ++ after)))
    (hole : ∀ pos rest inner after, splitHole none 0 rest = some (inner, after) →
      motive (pos + 2 + Text.byteLength inner + 1) after → motive pos ('$' :: '\x7b' :: rest))
    (mark : ∀ pos rest, motive (pos + 1) rest → motive pos ('"' :: rest))
    (lineEnd : ∀ pos rest, motive (pos + 1) rest → motive pos ('\n' :: rest))
    (char : ∀ pos c rest, c ≠ '\x60' → c ≠ '\\' → ¬(c = '$' ∧ rest.head? = some '\x7b') →
      c ≠ '"' → c ≠ '\n' → (scanTemplate start (pos + c.utf8Size) rest).Clean →
      motive (pos + c.utf8Size) rest → motive pos (c :: rest))
    {pos : Nat} {cs : List Char} (clean : (scanTemplate start pos cs).Clean) : motive pos cs := by
  induction pos, cs using scanTemplate_induction with
  | nil pos => exact absurd clean scanTemplate_nil_not_clean
  | close pos rest => exact close pos rest
  | backslash pos =>
    rw [scanTemplate_backslash] at clean
    cases clean.1
  | escape pos e rest ih =>
    rw [scanTemplate_escape] at clean
    obtain ⟨out, ok, later⟩ := LiteralText.of_writeEscape clean.1
    obtain ⟨taken, after, rfl, length, rewrites⟩ := Escape.exists_rewrites ok
    have rest : (scanTemplate start _ _).Clean := ⟨later, clean.2⟩
    rw [← length, List.drop_left] at rest ih
    exact escape pos e taken after out rewrites rest (ih rest)
  | unclosed pos rest unclosed =>
    rw [scanTemplate_unclosed _ _ _ unclosed] at clean
    cases clean.1
  | hole pos rest inner after closed ih =>
    rw [scanTemplate_hole _ _ _ closed] at clean
    exact hole pos rest inner after closed (ih (List.forall_mem_cons.1 clean.2))
  | mark pos rest ih =>
    rw [scanTemplate_mark] at clean
    exact mark pos rest (ih clean)
  | lineEnd pos rest ih =>
    rw [scanTemplate_lineEnd] at clean
    exact lineEnd pos rest (ih clean)
  | char pos c rest other plain closed unmarked inLine ih =>
    rw [scanTemplate_char _ _ _ other plain closed unmarked inLine] at clean
    exact char pos c rest other plain closed unmarked inLine clean (ih clean)

end ScriptToGo
