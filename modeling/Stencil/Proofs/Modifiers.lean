import Mathlib
import Stencil.Proofs.Operands

/-!
# Modifiers of loops

The modifiers of a loop are read one after the other. As each of them sets something else, what is
read does not depend on the order in which they are written.
-/
namespace Stencil

/-- A modifier as it is written. -/
inductive Modifier where
  | reversed
  | limit (e : Expr)
  | offset (e : Expr)

namespace Modifier

def operand? : Modifier → Option Expr
  | .reversed => none
  | .limit e => some e
  | .offset e => some e

def kinds : Modifier → List TokenKind
  | .reversed => [.ident "reversed"]
  | .limit e => .ident "limit" :: .symbol .colon :: e.operandKinds 6
  | .offset e => .ident "offset" :: .symbol .colon :: e.operandKinds 6

end Modifier

namespace LoopModifiers

def add (m : LoopModifiers) : Modifier → LoopModifiers
  | .reversed => { m with reversed := true }
  | .limit e => { m with limit := some e }
  | .offset e => { m with offset := some e }

/-- Modifiers in the order in which they are printed. -/
def written (m : LoopModifiers) : List Modifier :=
  (if m.reversed then [.reversed] else []) ++
    (m.limit.toList.map .limit ++ m.offset.toList.map .offset)

theorem kinds_eq (m : LoopModifiers) : m.kinds = m.written.flatMap Modifier.kinds := by
  obtain ⟨limit, offset, reversed⟩ := m
  cases limit <;> cases offset <;> cases reversed <;> simp [kinds, written, Modifier.kinds]

theorem foldl_written (m : LoopModifiers) : m.written.foldl add {} = m := by
  obtain ⟨limit, offset, reversed⟩ := m
  cases limit <;> cases offset <;> cases reversed <;> rfl

theorem limit_mem_written {m : LoopModifiers} {e : Expr} :
    .limit e ∈ m.written ↔ m.limit = some e := by
  cases h : m.reversed <;> simp [written, h]

theorem offset_mem_written {m : LoopModifiers} {e : Expr} :
    .offset e ∈ m.written ↔ m.offset = some e := by
  cases h : m.reversed <;> simp [written, h]

/-- No two of the modifiers set the same. -/
theorem add_comm {m : LoopModifiers} {x y : Modifier} (hx : x ∈ m.written) (hy : y ∈ m.written)
    (n : LoopModifiers) : (n.add x).add y = (n.add y).add x := by
  cases x with
  | reversed => cases y <;> rfl
  | limit e =>
    cases y with
    | reversed | offset => rfl
    | limit d =>
      obtain rfl : e = d := Option.some.inj ((limit_mem_written.mp hx).symm.trans
        (limit_mem_written.mp hy))
      rfl
  | offset e =>
    cases y with
    | reversed | limit => rfl
    | offset d =>
      obtain rfl : e = d := Option.some.inj ((offset_mem_written.mp hx).symm.trans
        (offset_mem_written.mp hy))
      rfl

theorem foldl_of_perm {m : LoopModifiers} {written : List Modifier} (h : written.Perm m.written) :
    written.foldl add {} = m := by
  rw [← h.symm.foldl_eq' fun x hx y hy n => add_comm hx hy n, foldl_written]

theorem printable_of_written {m : LoopModifiers} (hlimit : ∀ e ∈ m.limit, e.Printable)
    (hoffset : ∀ e ∈ m.offset, e.Printable) {x : Modifier} (hx : x ∈ m.written) :
    ∀ e ∈ x.operand?, e.Printable := by
  rintro e he
  cases x with
  | reversed => cases he
  | limit d =>
    obtain rfl : d = e := Option.some.inj he
    exact hlimit d (limit_mem_written.mp hx)
  | offset d =>
    obtain rfl : d = e := Option.some.inj he
    exact hoffset d (offset_mem_written.mp hx)

end LoopModifiers

namespace Modifier

theorem length_operand (x : Modifier) :
    ∀ e ∈ x.operand?, (e.operandKinds 6).length ≤ x.kinds.length := by
  rintro e he
  cases x with
  | reversed => cases he
  | limit d | offset d =>
    obtain rfl : d = e := Option.some.inj he
    simp only [kinds, List.length_cons]
    omega

theorem printable_of_mem_kinds {x : Modifier} (h : ∀ e ∈ x.operand?, e.Printable) :
    ∀ k ∈ x.kinds, k.Printable := by
  cases x with
  | reversed =>
    exact List.forall_mem_singleton.mpr (isIdentifier_of_letters (by decide) (by decide))
  | limit e =>
    have hword : IsIdentifier "limit" := isIdentifier_of_letters (by decide) (by decide)
    exact List.forall_mem_cons.mpr ⟨hword, List.forall_mem_cons.mpr
      ⟨trivial, Expr.printable_of_mem_operandKinds (h e rfl) 6⟩⟩
  | offset e =>
    have hword : IsIdentifier "offset" := isIdentifier_of_letters (by decide) (by decide)
    exact List.forall_mem_cons.mpr ⟨hword, List.forall_mem_cons.mpr
      ⟨trivial, Expr.printable_of_mem_operandKinds (h e rfl) 6⟩⟩

end Modifier

namespace Statement

/-- The tokens of a loop with modifiers in some order. -/
def loopKinds (name : String) (source : Expr) (written : List Modifier) : List TokenKind :=
  .ident name :: .ident "in" :: source.operandKinds 6 ++ written.flatMap Modifier.kinds

theorem loopKinds_written (name : String) (source : Expr) (m : LoopModifiers) :
    loopKinds name source m.written = (Statement.loop name source m).kinds := by
  rw [loopKinds, kinds, m.kinds_eq]

end Statement

namespace Parser

variable {inner : Parser Expr} {x : Modifier} {written : List Modifier} {P : TokenKind → Prop}

theorem modifier?_reads (h : ∀ e ∈ x.operand?, ReadsAt inner 6 (e.operandKinds 6) e)
    (m : LoopModifiers) : Reads (modifier? inner m) x.kinds (some (m.add x)) (Stops 6) := by
  cases x with
  | reversed => exact Reads.accepting rfl (Reads.ret _ _)
  | limit e =>
    exact Reads.declining rfl (Reads.accepting rfl
      (Reads.bind (needSymbol_reads _ _) leads_true (h e rfl).map))
  | offset e =>
    exact Reads.declining rfl (Reads.declining rfl (Reads.accepting rfl
      (Reads.bind (needSymbol_reads _ _) leads_true (h e rfl).map)))

/-- What may come after a modifier. -/
def EndsModifier (kind : TokenKind) : Prop := Stops 6 kind ∧ kind.isSymbol .comma = false

theorem modifierStep?_reads (h : ∀ e ∈ x.operand?, ReadsAt inner 6 (e.operandKinds 6) e)
    (m : LoopModifiers) :
    Reads (modifierStep? inner m) x.kinds (some (m.add x)) EndsModifier := by
  have hcomma : Reads (do discard (acceptSymbol .comma); return some (m.add x)) []
      (some (m.add x)) EndsModifier :=
    (discard_reads accept_false).map.weaken fun _ hkind => hkind.2
  have hread : Reads (modifierStep? inner m) (x.kinds ++ []) (some (m.add x)) EndsModifier :=
    (modifier?_reads h m).bind (fun _ hkind => hkind.1) hcomma
  rwa [List.append_nil] at hread

theorem leads_modifiers : Leads EndsModifier (written.flatMap Modifier.kinds) AtEnd := by
  cases written with
  | nil => exact fun _ h => h.elim
  | cons x written =>
    cases x with
    | reversed | limit | offset => exact ⟨stops_of_none rfl, rfl⟩

theorem modifiers_repeats
    (h : ∀ x ∈ written, ∀ e ∈ x.operand?, ReadsAt inner 6 (e.operandKinds 6) e)
    (m : LoopModifiers) :
    Repeats (modifierStep? inner) AtEnd m (written.flatMap Modifier.kinds)
      (written.foldl LoopModifiers.add m) := by
  induction written generalizing m with
  | nil => exact .done (reads_atEnd rfl)
  | cons x written ih =>
    obtain ⟨hx, hwritten⟩ := List.forall_mem_cons.mp h
    have hread := modifierStep?_reads hx m
    cases x with
    | reversed | limit | offset => exact .more hread leads_modifiers (ih hwritten _)

theorem loopKinds_reads {name : String} {source : Expr}
    (hsource : ReadsAt inner 6 (source.operandKinds 6) source)
    (h : ∀ x ∈ written, ∀ e ∈ x.operand?, ReadsAt inner 6 (e.operandKinds 6) e) :
    Reads (loop inner) (Statement.loopKinds name source written)
      (.loop name source (written.foldl LoopModifiers.add {})) AtEnd := by
  have hin : Reads (need "'in'" fun kind => if kind.isWord "in" then some () else none)
      [.ident "in"] () fun _ => True := need_some rfl
  have hmodifiers : Reads (extend (modifierStep? inner) {}) (written.flatMap Modifier.kinds)
      (written.foldl LoopModifiers.add {}) AtEnd := (modifiers_repeats h {}).reads
  have hlead : Leads (Stops 6) (written.flatMap Modifier.kinds) AtEnd :=
    leads_modifiers.mono fun _ h => h.1
  change Reads _ ([.ident name] ++
    ([.ident "in"] ++ (source.operandKinds 6 ++ written.flatMap Modifier.kinds))) _ _
  exact Reads.bind (name_reads _ _) leads_true
    (hin.bind leads_true (Reads.bind hsource hlead hmodifiers.map))

end Parser

end Stencil
