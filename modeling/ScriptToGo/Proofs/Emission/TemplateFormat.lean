import ScriptToGo.Grammar.Expr
import ScriptToGo.Proofs.Emission.FormatParts
import ScriptToGo.Proofs.Token.LiteralTokens

/-! The Go code of templates, with its formats read as `fmt.Sprintf` reads them. -/
namespace ScriptToGo
open GoLiteral (Piece)

/-- Every static text of a template is the inside of a Go literal. -/
theorem Interleaved.exists_pieces {pos : Nat} {text head : List Char}
    {parts : List (List Char × Hole)} (h : Interleaved pos text head parts) :
    ∃ (ps : List Piece) (texts : List (List Piece)), head = ps.flatMap Piece.written ∧
      (∀ p ∈ ps, p.Form) ∧
      parts.map (·.2.after.toList) = texts.map (·.flatMap Piece.written) ∧
      ∀ ps ∈ texts, ∀ p ∈ ps, p.Form := by
  induction h with
  | close same =>
    obtain ⟨value, inGo, -⟩ := same
    obtain ⟨ps, whole, form⟩ := GoLiteral.exists_form inGo
    exact ⟨ps, [], whole, form, rfl, List.forall_mem_nil _⟩
  | hole same later ih =>
    obtain ⟨value, inGo, -⟩ := same
    obtain ⟨ps, whole, form⟩ := GoLiteral.exists_form inGo
    obtain ⟨next, texts, first, formNext, others, forms⟩ := ih
    refine ⟨ps, next :: texts, whole, form, ?_, List.forall_mem_cons.2 ⟨formNext, forms⟩⟩
    rw [List.map_cons, List.map_cons, others]
    exact congrArg (· :: _) first

namespace Grammar

theorem interpolations_after {holes : List Hole} {list : List TemplateHole}
    (h : interpolations holes = .ok list) : list.map TemplateHole.after = holes.map Hole.after := by
  induction holes generalizing list with
  | nil =>
    rw [interpolations] at h
    cases h
    rfl
  | cons hole rest ih =>
    obtain ⟨tokens, span, after⟩ := hole
    rw [interpolations] at h
    split at h
    · cases h
    split at h
    · cases h
    split at h
    · split at h
      next others read =>
        cases h
        rw [List.map_cons, List.map_cons, ih read]
        rfl
      · cases h
    · cases h

theorem kind_of_next? {c : Cursor} {n : Cursor.Next c} (h : c.next? = some n) :
    n.kind = c.peek.kind := by
  rw [Cursor.next?] at h
  split at h
  next kind span token rest left =>
    cases h
    have first : c.peek = .mk kind span := by simp only [Cursor.peek, left, List.head_cons]
    rw [first]
    rfl
  · cases h

theorem primary_template {c next : Cursor} {e : Expr} {head : String} {holes : List Hole}
    {shorter : next.size < c.size} (peek : c.peek.kind = .template head holes)
    (parsed : primary c = .ok e next shorter) :
    ∃ span list, e = .template span head list ∧ interpolations holes = .ok list := by
  have more : c.atEnd = false := by rw [Cursor.atEnd, peek]; rfl
  obtain ⟨n, found⟩ := Cursor.exists_next? more
  have kind := (kind_of_next? found).trans peek
  obtain ⟨_, span, after, size, fewer⟩ := n
  dsimp only at kind
  subst kind
  rw [primary, found] at parsed
  dsimp only at parsed
  split at parsed
  next list read =>
    cases parsed
    exact ⟨_, list, rfl, read⟩
  · cases parsed

end Grammar

theorem TemplateHole.length_allToGo {v : View} {holes : List TemplateHole} {args : List Snippet}
    (h : TemplateHole.allToGo v holes = .ok args) : args.length = holes.length := by
  induction holes generalizing args with
  | nil =>
    cases h
    rfl
  | cons hole rest ih =>
    obtain ⟨value, after⟩ := hole
    rw [TemplateHole.allToGo] at h
    cases first : value.toGo v with
    | error failure =>
      rw [first] at h
      cases h
    | ok code =>
      cases others : TemplateHole.allToGo v rest with
      | error failure =>
        rw [first, others] at h
        cases h
      | ok codes =>
        rw [first, others] at h
        cases h
        rw [List.length_cons, List.length_cons, ih others]

theorem Snippet.text_append (a b : Snippet) : (a ++ b).text = a.text ++ b.text := rfl

theorem Snippet.text_commaSeparated (first : Snippet) (others : List Snippet) :
    (commaSeparated (first :: others)).text
      = first.text ++ String.join (others.map fun other => ", " ++ other.text) := by
  induction others generalizing first with
  | nil => exact (String.append_empty).symm
  | cons second rest ih =>
    rw [commaSeparated, text_append, text_append, ih, List.map_cons, String.join_cons]
    · simp only [String.append_assoc]
      rfl
    · exact List.cons_ne_nil _ _

theorem Snippet.text_sprintf (format : String) (args : List Snippet) :
    (sprintf format args).text
      = "fmt.Sprintf(\"" ++ format ++ "\"" ++ String.join (args.map fun arg => ", " ++ arg.text)
        ++ ")" := by
  have opening : "fmt.Sprintf(\"" = s!"{Target.sprintf}(" ++ "\"" := rfl
  have quoted : (ofText s!"\"{format}\"").text = "\"" ++ format ++ "\"" := rfl
  rw [sprintf, text_append, text_append, text_commaSeparated, quoted, opening]
  simp only [String.append_assoc]
  rfl

theorem Expr.toGo_template {v : View} {span : Span} {head : String} {holes : List TemplateHole}
    {code : Snippet} (h : (Expr.template span head holes).toGo v = .ok code) :
    ∃ args, TemplateHole.allToGo v holes = .ok args ∧
      code = .sprintf (templateFormat head holes) args := by
  rw [Expr.toGo] at h
  cases items : TemplateHole.allToGo v holes with
  | error failure =>
    rw [items] at h
    cases h
  | ok args =>
    rw [items] at h
    cases h
    exact ⟨args, rfl, rfl⟩

/-- The Go code of an expression calls `fmt.Sprintf` with a format, which stands between the quotes,
and with the code of what a template interpolates. -/
def Expr.CallsSprintf (v : View) (head : String) (holes : List Hole) (e : Expr) (code : Snippet)
    (format : String) : Prop :=
  ∃ span list args, e = .template span head list ∧ Grammar.interpolations holes = .ok list ∧
    TemplateHole.allToGo v list = .ok args ∧ args.length = holes.length ∧
    code.text = "fmt.Sprintf(\"" ++ format ++ "\"" ++
      String.join (args.map fun arg => ", " ++ arg.text) ++ ")"

/-- The format in the Go code of a template is read as what the template is meant to be, its static
texts with an argument between each two, if and only if no percent sign of the texts is written by
an escape. -/
theorem template_format_iff {source : String} {base : Nat} {tokens : List Token} {token : Token}
    {head : String} {holes : List Hole} {c next : Cursor} {e : Expr} {shorter : next.size < c.size}
    {v : View} {code : Snippet} (h : tokenize source base = .ok tokens)
    (mem : token ∈ allTokens tokens) (template : token.kind = .template head holes)
    (peek : c.peek = token) (parsed : Grammar.primary c = .ok e next shorter)
    (emitted : e.toGo v = .ok code) :
    ∃ format text texts, e.CallsSprintf v head holes code format ∧
      GoLiteral.decode head.toList = some text ∧
      holes.map (GoLiteral.decode ·.after.toList) = texts.map some ∧
      ((GoLiteral.decode format.toList).bind readFormat = some (templateItems text texts) ↔
        NoEscapedPercent head.toList ∧ ∀ hole ∈ holes, NoEscapedPercent hole.after.toList) := by
  obtain ⟨span, list, rfl, read⟩ := Grammar.primary_template (peek ▸ template) parsed
  obtain ⟨place, raw, parts, rfl, -, -, interleaved⟩ :=
    ((tiles_of_tokenize h).2 token mem).keepsTemplate template
  obtain ⟨ps, texts, starts, form, others, forms⟩ := interleaved.exists_pieces
  obtain ⟨args, written, same⟩ := Expr.toGo_template emitted
  have afters : list.map (·.after.toList) = texts.map (·.flatMap Piece.written) := by
    have := congrArg (List.map String.toList) (Grammar.interpolations_after read)
    rw [List.map_map, List.map_map, List.map_map] at this
    exact this.trans others
  have size : args.length = (parts.map Prod.snd).length := by
    have := congrArg List.length (Grammar.interpolations_after read)
    rw [List.length_map, List.length_map] at this
    exact (TemplateHole.length_allToGo written).trans this
  have bodies {P : List Char → Prop} : (∀ hole ∈ parts.map Prod.snd, P hole.after.toList) ↔
      ∀ ps ∈ texts, P (ps.flatMap Piece.written) := by
    rw [← List.forall_mem_map (f := List.flatMap Piece.written), ← others, List.forall_mem_map,
      List.forall_mem_map]
  refine ⟨templateFormat head list, ps.map Piece.value, texts.map (·.map Piece.value),
    ⟨span, list, args, rfl, read, written, size, ?_⟩, ?_, ?_, ?_⟩
  · rw [same, Snippet.text_sprintf]
  · rw [starts, GoLiteral.decode_written form]
  · have := congrArg (List.map GoLiteral.decode) others
    rw [List.map_map, List.map_map] at this
    rw [List.map_map, List.map_map]
    refine this.trans (List.map_congr_left fun ps mem => ?_)
    exact GoLiteral.decode_written (forms ps mem)
  · rw [readFormat_templateFormat_iff form forms starts afters, bodies, starts,
      noEscapedPercent_iff form]
    exact and_congr_right fun _ =>
      forall₂_congr fun ps mem => (noEscapedPercent_iff (forms ps mem)).symm

/-- A template with a percent sign in front of what it interpolates, and escapes behind it. -/
def priceTag : String := "\x60100%$\x7bn\x7d\\n\\u00e9\x60"

/-- What it interpolates. -/
def priceTagHole : Hole :=
  .mk [.mk (.ident "n") ⟨7, 8⟩, .mk .eof ⟨8, 8⟩] ⟨7, 8⟩ "\\n\\u00e9"

def priceTagToken : Token := .mk (.template "100%" [priceTagHole]) ⟨0, 18⟩

def priceTagExpr : Expr := .template ⟨0, 18⟩ "100%" [.mk (.ident ⟨7, 8⟩ "n") "\\n\\u00e9"]

/-- A program that is nothing but the template, of which no types are known. -/
def priceTagView : View := ⟨⟨0, ⟨"main.ts"⟩, priceTag, [], []⟩, .empty⟩

theorem priceTag_format :
    ∃ code format text texts, priceTagExpr.toGo priceTagView = .ok code ∧
      priceTagExpr.CallsSprintf priceTagView "100%" [priceTagHole] code format ∧
      GoLiteral.decode "100%".toList = some text ∧
      [priceTagHole].map (GoLiteral.decode ·.after.toList) = texts.map some ∧
      (GoLiteral.decode format.toList).bind readFormat = some (templateItems text texts) := by
  have lexed : tokenize priceTag 0 = .ok [priceTagToken, .mk .eof ⟨18, 18⟩] := by
    simp only [priceTag, tokenize, String.reduceToList, lexFrom_cons]
    cbv
  have mem : priceTagToken ∈ allTokens [priceTagToken, .mk .eof ⟨18, 18⟩] := by
    simp [allTokens, priceTagToken, Token.all]
  have parsed : Grammar.primary ⟨⟨0, 18⟩, [priceTagToken, .mk .eof ⟨18, 18⟩], rfl⟩
      = .ok priceTagExpr ⟨⟨0, 18⟩, [.mk .eof ⟨18, 18⟩], rfl⟩ (by decide) := by
    cbv
  have emitted : priceTagExpr.toGo priceTagView
      = .ok (.sprintf "100%%%v\\n\\u00e9" [⟨"n", []⟩]) := by
    cbv
  obtain ⟨format, text, texts, calls, head, after, reads⟩ :=
    template_format_iff lexed mem rfl rfl parsed emitted
  refine ⟨_, format, text, texts, emitted, calls, head, after, reads.2 ⟨?_, ?_⟩⟩
  · have pieces : GoLiteral.pieces "100%".toList
        = some [.plain '1', .plain '0', .plain '0', .plain '%'] := by
      cbv
    rw [NoEscapedPercent, pieces]
    rintro ps ⟨⟩
    decide
  · have pieces : GoLiteral.pieces priceTagHole.after.toList
        = some [.named 'n' '\n', .coded 'u' ['0', '0', 'e', '9'] 0xe9] := by
      cbv
    rw [List.forall_mem_singleton, NoEscapedPercent, pieces]
    rintro ps ⟨⟩
    decide

/-- A template with a percent sign that is written by an escape. -/
def escapedPercent : String := "\x60\\x25d\x60"

def escapedPercentToken : Token := .mk (.template "\\x25d" []) ⟨0, 7⟩

/-- The format `\x25d` is a verb and not the text `%d`. -/
theorem escapedPercent_misread :
    tokenize escapedPercent 0 = .ok [escapedPercentToken, .mk .eof ⟨7, 7⟩] ∧
      Grammar.primary ⟨⟨0, 7⟩, [escapedPercentToken, .mk .eof ⟨7, 7⟩], rfl⟩
        = .ok (.template ⟨0, 7⟩ "\\x25d" []) ⟨⟨0, 7⟩, [.mk .eof ⟨7, 7⟩], rfl⟩ (by decide) ∧
      (∀ v, ∃ code, (Expr.template ⟨0, 7⟩ "\\x25d" []).toGo v = .ok code ∧
        code.text = "fmt.Sprintf(\"\\x25d\")") ∧
      GoLiteral.decode "\\x25d".toList = some ['%', 'd'] ∧
      (GoLiteral.decode "\\x25d".toList).bind readFormat
        ≠ some (templateItems ['%', 'd'] []) := by
  have decoded : GoLiteral.decode "\\x25d".toList = some ['%', 'd'] := by cbv
  refine ⟨?_, ?_, ?_, decoded, ?_⟩
  · simp only [escapedPercent, tokenize, String.reduceToList, lexFrom_cons]
    cbv
  · cbv
  · intro v
    exact ⟨.sprintf "\\x25d" [], by cbv, by cbv⟩
  · rw [decoded]
    decide

end ScriptToGo
