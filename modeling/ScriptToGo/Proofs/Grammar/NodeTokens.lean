import ScriptToGo.Proofs.Grammar.Strength
import ScriptToGo.Proofs.Program.Nodes

/-! The tokens that write the nodes of a program. -/
namespace ScriptToGo

/-- A type is written after a colon, or there is neither. -/
inductive TypeExpr.OptionallyWrittenBy : Option TypeExpr → List Token → Prop
  | none : TypeExpr.OptionallyWrittenBy none []
  | some {colon type ts} : type.WrittenBy ts →
      TypeExpr.OptionallyWrittenBy (some type) (.mk (.punctuation .colon) colon :: ts)

/-- A first value is written after an equals sign, or there is neither. -/
inductive Expr.OptionallyWrittenBy : Option Expr → List Token → Prop
  | none : Expr.OptionallyWrittenBy none []
  | some {equals e ts} : e.WrittenBy ts → e.Leveled →
      Expr.OptionallyWrittenBy (some e) (.mk (.operator .assign) equals :: ts)

/-- A node is written by these tokens, and the operators in it keep to their table. -/
inductive Node.WrittenBy : Node → List Token → Prop
  | expression {e ts} : e.WrittenBy ts → e.Leveled → Node.WrittenBy (.expression e) ts
  | writtenType {type ts} : type.WrittenBy ts → Node.WrittenBy (.writtenType type) ts
  | param {name s type? ts tokens} (whole : tokens = .mk (.ident name) s :: ts) :
      TypeExpr.OptionallyWrittenBy type? ts →
      Node.WrittenBy (.param ⟨spanOf tokens, ⟨name, s⟩, type?⟩) tokens
  | declarator {name s type? ts initializer? us tokens}
      (whole : tokens = .mk (.ident name) s :: (ts ++ us)) :
      TypeExpr.OptionallyWrittenBy type? ts → Expr.OptionallyWrittenBy initializer? us →
      Node.WrittenBy (.declarator ⟨spanOf tokens, ⟨name, s⟩, type?, initializer?⟩) tokens
  | shorthand {name s} : Node.WrittenBy (.shorthand ⟨name, s⟩) [.mk (.ident name) s]

theorem Node.WrittenBy.ne_nil {n : Node} {tokens : List Token} (h : n.WrittenBy tokens) :
    tokens ≠ [] := by
  cases h with
  | expression written => exact written.ne_nil
  | writtenType written => exact written.ne_nil
  | param whole | declarator whole => rw [whole]; exact List.cons_ne_nil _ _
  | shorthand => exact List.cons_ne_nil _ _

/-- Nodes stand one after the other among tokens, and each has tokens of its own. -/
inductive Laid (Own : Node → List Token → Prop) : List Node → List Token → Prop
  | nil {tokens} : Laid Own [] tokens
  | cons {n rest before own after} : Own n own → Laid Own rest after →
      Laid Own (n :: rest) (before ++ (own ++ after))

namespace Laid

variable {Own Other : Node → List Token → Prop} {nodes more : List Node}
  {tokens others : List Token}

theorem before (h : Laid Own nodes tokens) (front : List Token) :
    Laid Own nodes (front ++ tokens) := by
  cases h with
  | nil => exact .nil
  | cons own rest =>
    rw [← List.append_assoc]
    exact .cons own rest

theorem append (h : Laid Own nodes tokens) (next : Laid Own more others) :
    Laid Own (nodes ++ more) (tokens ++ others) := by
  induction h with
  | nil => exact next.before _
  | cons own rest ih =>
    rw [List.cons_append, List.append_assoc, List.append_assoc]
    exact .cons own ih

theorem after (h : Laid Own nodes tokens) (back : List Token) :
    Laid Own nodes (tokens ++ back) := by
  have padded : Laid Own (nodes ++ []) (tokens ++ back) := h.append .nil
  rwa [List.append_nil] at padded

theorem one {n : Node} (h : Own n tokens) : Laid Own [n] tokens := by
  have laid : Laid Own [n] ([] ++ (tokens ++ [])) := .cons h .nil
  rwa [List.nil_append, List.append_nil] at laid

theorem mono (h : Laid Own nodes tokens)
    (implies : ∀ n own, own <:+: tokens → Own n own → Other n own) : Laid Other nodes tokens := by
  induction h with
  | nil => exact .nil
  | @cons n rest before own after here _ ih =>
    refine .cons (implies n own ⟨before, after, List.append_assoc ..⟩ here) ?_
    exact ih fun n block among => implies n block (among.trans ⟨before ++ own, [], by simp⟩)

theorem exists_of_mem (h : Laid Own nodes tokens) {n : Node} (mem : n ∈ nodes) :
    ∃ own, own <:+: tokens ∧ Own n own := by
  induction h with
  | nil => cases mem
  | @cons first rest before own after here _ ih =>
    rcases List.mem_cons.1 mem with rfl | mem
    · exact ⟨own, ⟨before, after, List.append_assoc ..⟩, here⟩
    · obtain ⟨block, among, there⟩ := ih mem
      exact ⟨block, among.trans ⟨before ++ own, [], by simp⟩, there⟩

end Laid

theorem TypeExpr.OptionallyWrittenBy.laid {type? : Option TypeExpr} {ts : List Token}
    (h : OptionallyWrittenBy type? ts) : Laid Node.WrittenBy (Node.ofType? type?) ts := by
  cases h with
  | none => exact .nil
  | some written => exact (Laid.one (.writtenType written)).before [_]

theorem Expr.OptionallyWrittenBy.laid {e? : Option Expr} {ts : List Token}
    (h : OptionallyWrittenBy e? ts) : Laid Node.WrittenBy (Node.ofExpr? e?) ts := by
  cases h with
  | none => exact .nil
  | some written leveled => exact (Laid.one (.expression written leveled)).before [_]

theorem Expr.ListWrittenBy.laid {list : List Expr} {ts : List Token} (h : ListWrittenBy list ts)
    (leveled : AllLeveled list) : Laid Node.WrittenBy (list.map .expression) ts := by
  match h with
  | .nil => exact .nil
  | .last written => exact .one (.expression written leveled.1)
  | .cons written rest =>
    have first : Laid Node.WrittenBy [_] _ := .one (.expression written leveled.1)
    exact first.append ((rest.laid leveled.2).before [_])

theorem Property.WrittenBy.laid {p : Property} {ts : List Token} (h : p.WrittenBy ts)
    (leveled : AllLeveled [p]) : Laid Node.WrittenBy [p.node] ts := by
  cases h with
  | assign whole written =>
    rw [whole]
    exact (Laid.one (.expression written leveled.1)).before [_, _]
  | shorthand => exact .one .shorthand
  | spread whole written =>
    rw [whole]
    exact (Laid.one (.expression written leveled.1)).before [_]

theorem Property.ListWrittenBy.laid {list : List Property} {ts : List Token}
    (h : ListWrittenBy list ts) (leveled : AllLeveled list) :
    Laid Node.WrittenBy (list.map Property.node) ts := by
  match h with
  | .nil => exact .nil
  | .last written => exact written.laid leveled
  | .cons written rest =>
    obtain ⟨here, others⟩ := allLeveled_cons leveled
    exact (written.laid here).append ((rest.laid others).before [_])

theorem Member.ListWrittenBy.laid {list : List Member} {ts : List Token}
    (h : ListWrittenBy list ts) :
    Laid Node.WrittenBy (list.map fun member => .writtenType member.type) ts := by
  have one {member : Member} {ts : List Token} (written : member.WrittenBy ts) :
      Laid Node.WrittenBy [.writtenType member.type] ts := by
    cases written with
    | required whole written =>
      rw [whole]
      exact (Laid.one (.writtenType written)).before [_, _]
    | optional whole written =>
      rw [whole]
      exact (Laid.one (.writtenType written)).before [_, _, _]
  match h with
  | .nil => exact .nil
  | .last written => exact one written
  | .cons _ written rest => exact (one written).append (rest.laid.before [_])

/-- A node inside of another has fewer tokens of its own. -/
def Node.WrittenWithin (limit : Nat) (n : Node) (own : List Token) : Prop :=
  n.WrittenBy own ∧ own.length < limit

theorem Laid.within {nodes : List Node} {tokens : List Token} {limit : Nat}
    (h : Laid Node.WrittenBy nodes tokens) (fits : tokens.length < limit) :
    Laid (Node.WrittenWithin limit) nodes tokens :=
  h.mono fun _ _ among written => ⟨written, Nat.lt_of_le_of_lt among.length_le fits⟩

/-- The nodes right inside of a node are written by tokens of its own, or by those that a template
token holds. -/
theorem Node.WrittenBy.inner_laid {n : Node} {ts : List Token} (h : n.WrittenBy ts) :
    Laid (Node.WrittenWithin ts.length) n.inner ts ∨
      ∃ span head list holes s, n = .expression (.template span head list) ∧
        ts = [.mk (.template head holes) s] ∧ TemplateHole.ListWrittenBy list holes ∧
        TemplateHole.AllLeveled list := by
  cases h with
  | writtenType | shorthand => exact .inl .nil
  | param whole typed =>
    subst whole
    exact .inl ((typed.laid.within (by simp)).before [_])
  | declarator whole typed valued =>
    subst whole
    exact .inl (((typed.laid.append valued.laid).within (by simp)).before [_])
  | expression written leveled =>
    have one {e : Expr} {ts : List Token} (written : e.WrittenBy ts) (leveled : e.Leveled) :
        Laid Node.WrittenBy [.expression e] ts := .one (.expression written leveled)
    cases written with
    | ident | number | string | trueWord | falseWord | null => exact .inl .nil
    | template listed => exact .inr ⟨_, _, _, _, _, rfl, rfl, listed, leveled⟩
    | array whole listed =>
      subst whole
      exact .inl ((((listed.laid leveled).within (by grind)).after [_]).before [_])
    | object whole listed =>
      subst whole
      exact .inl ((((listed.laid leveled).within (by grind)).after [_]).before [_])
    | paren whole inner =>
      subst whole
      exact .inl ((((one inner leveled).within (by grind)).after [_]).before [_])
    | leading operand => exact .inl (((one operand leveled.1).within (by simp)).before [_])
    | trailing operand => exact .inl (((one operand leveled.1).within (by simp)).after [_])
    | member target => exact .inl (((one target leveled.1).within (by simp)).after [_, _])
    | cast operand type =>
      refine .inl (((one operand leveled.1).within (by simp)).append (.before ?_ [_]))
      exact (Laid.one (.writtenType type)).within (by simp; omega)
    | binary left right =>
      refine .inl (((one left leveled.1).within (by simp)).append (.before ?_ [_]))
      exact (one right leveled.2.1).within (by simp; omega)
    | index target place =>
      refine .inl (((one target leveled.1).within (by simp)).append (.before (.after ?_ [_]) [_]))
      exact (one place leveled.2.2).within (by simp; omega)
    | call callee args =>
      refine .inl (((one callee leveled.1).within (by simp)).append (.before (.after ?_ [_]) [_]))
      exact (args.laid leveled.2.2).within (by simp; omega)
    | conditional condition whenTrue whenFalse =>
      refine .inl (((one condition leveled.1).within (by simp)).append (.before ?_ [_]))
      refine ((one whenTrue leveled.2.2.1).within (by simp; omega)).append (.before ?_ [_])
      exact (one whenFalse leveled.2.2.2).within (by simp; omega)

end ScriptToGo
