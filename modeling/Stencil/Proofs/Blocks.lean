import Mathlib
import Stencil.Proofs.Verbatim
import Stencil.Tags.Outline

/-!
# Blocks

The tags of a template form a tree if each of them has a role where it stands: it ends the innermost
open block, divides it, begins a block or stands alone. Compiling finds this tree, or the first tag
without a role, or the innermost block that is left open.
-/
namespace Stencil

/-- A tag as it was scanned. -/
structure ScannedTag where
  name : String
  args : String
  offset : Nat
  span : Span

namespace ScannedTag

def piece (tag : ScannedTag) : Piece := .tag tag.name tag.args tag.offset tag.span

def source (tag : ScannedTag) (text : SourceText) (origin : Origin) : TagSource :=
  ⟨tag.name, tag.args, tag.offset, text.location tag.span.start, text, origin⟩

end ScannedTag

/-- What a tag does where it stands. -/
inductive Role where
  | ending
  | clause
  | opening (rule : BlockRule)
  | single (rule : TagRule)

namespace Grammar

/-- The role of a tag outside of blocks. -/
def outerRole? (g : Grammar) (name : String) : Option Role :=
  match g.block? name with
  | some rule => some (.opening rule)
  | none => (g.tag? name).map .single

/-- The role of a tag, given the innermost open block. -/
def role? (g : Grammar) : Option BlockRule → String → Option Role
  | none, name => g.outerRole? name
  | some inner, name =>
    if inner.endTag = name then some .ending
    else if inner.clauses.contains name then some .clause
    else g.outerRole? name

theorem outerRole?_cases {g : Grammar} {name : String} {role : Role}
    (h : g.outerRole? name = some role) :
    (∃ rule, g.block? name = some rule ∧ role = .opening rule) ∨
      ∃ rule, g.block? name = none ∧ g.tag? name = some rule ∧ role = .single rule := by
  unfold outerRole? at h
  cases hblock : g.block? name with
  | some rule =>
    rw [hblock] at h
    cases h
    exact .inl ⟨rule, rfl, rfl⟩
  | none =>
    rw [hblock] at h
    obtain ⟨rule, htag, hrole⟩ := Option.map_eq_some_iff.mp h
    exact .inr ⟨rule, rfl, htag, hrole.symm⟩

end Grammar

inductive SourceTree where
  | text (s : String)
  | output (body : String) (offset : Nat) (span : Span)
  | single (tag : ScannedTag)
  | block (first : ScannedTag) (body : List SourceTree)
      (clauses : List (ScannedTag × List SourceTree)) (last : ScannedTag)

namespace SourceTree

mutual

/-- The pieces of a tree in order. -/
def walk : SourceTree → List Piece
  | .text s => [.text s]
  | .output body offset span => [.output body offset span]
  | .single tag => [tag.piece]
  | .block first body clauses last =>
    first.piece :: walkAll body ++ walkClauses clauses ++ [last.piece]

def walkAll : List SourceTree → List Piece
  | [] => []
  | tree :: trees => walk tree ++ walkAll trees

def walkClauses : List (ScannedTag × List SourceTree) → List Piece
  | [] => []
  | (tag, body) :: clauses => tag.piece :: walkAll body ++ walkClauses clauses

end

mutual

/-- Every tag has the role that the tree gives it. -/
def Fits (g : Grammar) (inner : Option BlockRule) : SourceTree → Prop
  | .text _ => True
  | .output .. => True
  | .single tag => ∃ rule, g.role? inner tag.name = some (.single rule)
  | .block first body clauses last =>
    ∃ rule, g.role? inner first.name = some (.opening rule) ∧ AllFit g (some rule) body ∧
      ClausesFit g rule clauses ∧ g.role? (some rule) last.name = some .ending

def AllFit (g : Grammar) (inner : Option BlockRule) : List SourceTree → Prop
  | [] => True
  | tree :: trees => Fits g inner tree ∧ AllFit g inner trees

def ClausesFit (g : Grammar) (rule : BlockRule) : List (ScannedTag × List SourceTree) → Prop
  | [] => True
  | (tag, body) :: clauses => g.role? (some rule) tag.name = some .clause ∧
      AllFit g (some rule) body ∧ ClausesFit g rule clauses

end

theorem walkAll_append (trees trees' : List SourceTree) :
    walkAll (trees ++ trees') = walkAll trees ++ walkAll trees' := by
  induction trees with
  | nil => rfl
  | cons tree trees ih => simp [walkAll, ih]

theorem walkClauses_append (clauses clauses' : List (ScannedTag × List SourceTree)) :
    walkClauses (clauses ++ clauses') = walkClauses clauses ++ walkClauses clauses' := by
  induction clauses with
  | nil => rfl
  | cons clause clauses ih => simp [walkClauses, ih]

variable {g : Grammar} {inner : Option BlockRule} {rule : BlockRule}

theorem allFit_append {trees trees' : List SourceTree} :
    AllFit g inner (trees ++ trees') ↔ AllFit g inner trees ∧ AllFit g inner trees' := by
  induction trees with
  | nil => simp [AllFit]
  | cons tree trees ih => simp [AllFit, ih, and_assoc]

theorem clausesFit_append {clauses clauses' : List (ScannedTag × List SourceTree)} :
    ClausesFit g rule (clauses ++ clauses') ↔
      ClausesFit g rule clauses ∧ ClausesFit g rule clauses' := by
  induction clauses with
  | nil => simp [ClausesFit]
  | cons clause clauses ih => simp [ClausesFit, ih, and_assoc]

end SourceTree

open SourceTree (walkAll walkClauses AllFit ClausesFit)

/-- The rule of the innermost block that is open. -/
def innermost (stack : List (ScannedTag × BlockRule)) : Option BlockRule := stack.head?.map Prod.snd

/-- Pieces with a role each, after which blocks are open, the innermost first. -/
inductive LeavesOpen (g : Grammar) : List Piece → List (ScannedTag × BlockRule) → Prop
  | done {trees : List SourceTree} (hfit : AllFit g none trees) : LeavesOpen g (walkAll trees) []
  | within {pieces : List Piece} {stack : List (ScannedTag × BlockRule)} {first : ScannedTag}
      {rule : BlockRule} {body : List SourceTree} {clauses : List (ScannedTag × List SourceTree)}
      (houter : LeavesOpen g pieces stack)
      (hfirst : g.role? (innermost stack) first.name = some (.opening rule))
      (hbody : AllFit g (some rule) body) (hclauses : ClausesFit g rule clauses) :
      LeavesOpen g (pieces ++ first.piece :: walkAll body ++ walkClauses clauses)
        ((first, rule) :: stack)

/-- Where pieces stop forming trees: at the first tag without a role, or else at the tag that opens
the innermost open block. -/
inductive StopsAt (g : Grammar) (tag : ScannedTag) : List Piece → Prop
  | misplaced {before : List Piece} {stack : List (ScannedTag × BlockRule)}
      (hbefore : LeavesOpen g before stack) (hrole : g.role? (innermost stack) tag.name = none)
      (after : List Piece) : StopsAt g tag (before ++ tag.piece :: after)
  | unclosed {pieces : List Piece} {rule : BlockRule} {stack : List (ScannedTag × BlockRule)}
      (hopen : LeavesOpen g pieces ((tag, rule) :: stack)) : StopsAt g tag pieces

namespace LeavesOpen

variable {g : Grammar} {pieces : List Piece} {stack : List (ScannedTag × BlockRule)}

/-- A tree belongs to the latest clause of the innermost block, or to its body. -/
theorem add_tree (h : LeavesOpen g pieces stack) {tree : SourceTree}
    (htree : tree.Fits g (innermost stack)) : LeavesOpen g (pieces ++ tree.walk) stack := by
  cases h with
  | @done trees hfit =>
    have hall : AllFit g none (trees ++ [tree]) :=
      SourceTree.allFit_append.mpr ⟨hfit, htree, trivial⟩
    have hwalk : walkAll trees ++ tree.walk = walkAll (trees ++ [tree]) := by
      simp [SourceTree.walkAll_append, walkAll]
    rw [hwalk]
    exact .done hall
  | @within pieces stack first rule body clauses houter hfirst hbody hclauses =>
    have htree : tree.Fits g (some rule) := htree
    rcases List.eq_nil_or_concat clauses with rfl | ⟨earlier, ⟨tag, latest⟩, rfl⟩
    · have hwalk : pieces ++ first.piece :: walkAll body ++ walkClauses [] ++ tree.walk
          = pieces ++ first.piece :: walkAll (body ++ [tree]) ++ walkClauses [] := by
        simp [SourceTree.walkAll_append, walkAll, walkClauses]
      rw [hwalk]
      exact .within houter hfirst (SourceTree.allFit_append.mpr ⟨hbody, htree, trivial⟩) trivial
    · rw [List.concat_eq_append] at hclauses ⊢
      obtain ⟨hearlier, htag, hlatest, -⟩ := SourceTree.clausesFit_append.mp hclauses
      have hwalk : pieces ++ first.piece :: walkAll body ++ walkClauses (earlier ++ [(tag, latest)])
            ++ tree.walk = pieces ++ first.piece :: walkAll body
              ++ walkClauses (earlier ++ [(tag, latest ++ [tree])]) := by
        simp [SourceTree.walkAll_append, SourceTree.walkClauses_append, walkAll, walkClauses]
      rw [hwalk]
      refine .within houter hfirst hbody (SourceTree.clausesFit_append.mpr ⟨hearlier, htag, ?_⟩)
      exact ⟨SourceTree.allFit_append.mpr ⟨hlatest, htree, trivial⟩, trivial⟩

theorem add_tag (h : LeavesOpen g pieces stack) {tag : ScannedTag} {role : Role}
    (hrole : g.role? (innermost stack) tag.name = some role) :
    ∃ stack', LeavesOpen g (pieces ++ [tag.piece]) stack' := by
  cases role with
  | ending =>
    cases h with
    | done hfit =>
      rcases Grammar.outerRole?_cases hrole with ⟨_, _, hnot⟩ | ⟨_, _, _, hnot⟩ <;> cases hnot
    | @within pieces stack first rule body clauses houter hfirst hbody hclauses =>
      have htree : SourceTree.Fits g (innermost stack) (.block first body clauses tag) := by
        rw [SourceTree.Fits]
        exact ⟨rule, hfirst, hbody, hclauses, hrole⟩
      refine ⟨stack, ?_⟩
      simpa [SourceTree.walk] using houter.add_tree htree
  | clause =>
    cases h with
    | done hfit =>
      rcases Grammar.outerRole?_cases hrole with ⟨_, _, hnot⟩ | ⟨_, _, _, hnot⟩ <;> cases hnot
    | @within pieces stack first rule body clauses houter hfirst hbody hclauses =>
      have hall : ClausesFit g rule (clauses ++ [(tag, [])]) := by
        rw [SourceTree.clausesFit_append]
        simp only [ClausesFit, AllFit, and_true]
        exact ⟨hclauses, hrole⟩
      refine ⟨(first, rule) :: stack, ?_⟩
      simpa [SourceTree.walkClauses_append, walkClauses, walkAll] using
        LeavesOpen.within houter hfirst hbody hall
  | opening rule =>
    have hbody : AllFit g (some rule) [] := by simp [AllFit]
    have hclauses : ClausesFit g rule [] := by simp [ClausesFit]
    refine ⟨(tag, rule) :: stack, ?_⟩
    simpa [walkAll, walkClauses] using LeavesOpen.within h hrole hbody hclauses
  | single rule =>
    have htree : SourceTree.Fits g (innermost stack) (.single tag) := by
      rw [SourceTree.Fits]
      exact ⟨rule, hrole⟩
    exact ⟨stack, by simpa [SourceTree.walk] using h.add_tree htree⟩

/-- Pieces form trees, or there is a place where they stop to do so. -/
theorem trees_or_stops (h : LeavesOpen g pieces stack) (later : List Piece) :
    (∃ trees, AllFit g none trees ∧ walkAll trees = pieces ++ later) ∨
      ∃ tag, StopsAt g tag (pieces ++ later) := by
  induction later generalizing pieces stack with
  | nil =>
    rw [List.append_nil]
    cases stack with
    | nil =>
      cases h with
      | @done trees hfit => exact .inl ⟨trees, hfit, rfl⟩
    | cons opened outer => exact .inr ⟨opened.1, .unclosed h⟩
  | cons piece later ih =>
    rw [← List.singleton_append, ← List.append_assoc]
    cases piece with
    | text s =>
      have htext : SourceTree.Fits g (innermost stack) (.text s) := by simp [SourceTree.Fits]
      exact ih (h.add_tree htext)
    | output body offset span =>
      have houtput : SourceTree.Fits g (innermost stack) (.output body offset span) := by
        simp [SourceTree.Fits]
      exact ih (h.add_tree houtput)
    | tag name args offset span =>
      let tag : ScannedTag := ⟨name, args, offset, span⟩
      cases hrole : g.role? (innermost stack) tag.name with
      | none =>
        right
        rw [List.append_assoc]
        exact ⟨tag, .misplaced h hrole later⟩
      | some role =>
        obtain ⟨stack', hnext⟩ := h.add_tag hrole
        exact ih hnext

end LeavesOpen

/-- What an action keeps of what it was made from, under rules that take everything. -/
structure Grammar.Keeps (g : Grammar) (kept : Action → BlockSource) : Prop where
  tag {name : String} {rule : TagRule} (h : g.tag? name = some rule) (tag : TagSource) :
    ∃ action, rule g.filters tag = .ok action ∧ kept action = ⟨tag, [], []⟩
  block {name : String} {rule : BlockRule} (h : g.block? name = some rule) (block : BlockSource) :
    ∃ action, rule.compile g.filters block = .ok action ∧ kept action = block

namespace SourceTree

section

variable (g : Grammar) (kept : Action → BlockSource) (text : SourceText) (origin : Origin)

mutual

/-- The node of a tree: whatever an action keeps is what the tree has there. -/
def Stands : SourceTree → Node → Prop
  | .text s, node => node = .text s
  | .output body offset span, node => ∃ e, text.compileExpr offset g.filters body = .ok e ∧
      node = .output e (text.location span.start)
  | .single tag, node => ∃ action, kept action = ⟨tag.source text origin, [], []⟩ ∧
      node = .tag false tag.name (text.location tag.span.start) action
  | .block first body clauses _, node => ∃ rule action nodes clauseNodes,
      g.block? first.name = some rule ∧ AllStand body nodes ∧ ClausesStand clauses clauseNodes ∧
      kept action = ⟨first.source text origin, nodes, clauseNodes⟩ ∧
      node = .tag true rule.name (text.location first.span.start) action

def AllStand : List SourceTree → List Node → Prop
  | [], nodes => nodes = []
  | tree :: trees, nodes => ∃ node nodes', nodes = node :: nodes' ∧ Stands tree node ∧
      AllStand trees nodes'

def ClausesStand : List (ScannedTag × List SourceTree) → List (TagSource × List Node) → Prop
  | [], clauseNodes => clauseNodes = []
  | (tag, body) :: clauses, clauseNodes => ∃ nodes clauseNodes',
      clauseNodes = (tag.source text origin, nodes) :: clauseNodes' ∧ AllStand body nodes ∧
      ClausesStand clauses clauseNodes'

end

end

end SourceTree

namespace Frame

def addAll (nodes : List Node) (f : Frame) : Frame := nodes.foldl (fun f node => f.add node) f

/-- Divide a block and fill its parts. -/
def addClauses (clauses : List (TagSource × List Node)) (f : Frame) : Frame :=
  clauses.foldl (fun f clause => (f.startClause clause.1).addAll clause.2) f

theorem of_addAll (nodes : List Node) (f : Frame) :
    (f.addAll nodes).rule = f.rule ∧ (f.addAll nodes).tag = f.tag := by
  induction nodes generalizing f with
  | nil => exact ⟨rfl, rfl⟩
  | cons node nodes ih =>
    have hadd : (f.add node).rule = f.rule ∧ (f.add node).tag = f.tag := by
      rw [add]
      split <;> exact ⟨rfl, rfl⟩
    obtain ⟨hrule, htag⟩ := ih (f.add node)
    exact ⟨hrule.trans hadd.1, htag.trans hadd.2⟩

theorem of_addClauses (clauses : List (TagSource × List Node)) (f : Frame) :
    (f.addClauses clauses).rule = f.rule ∧ (f.addClauses clauses).tag = f.tag := by
  induction clauses generalizing f with
  | nil => exact ⟨rfl, rfl⟩
  | cons clause clauses ih =>
    obtain ⟨hrule, htag⟩ := ih ((f.startClause clause.1).addAll clause.2)
    obtain ⟨hrule', htag'⟩ := of_addAll clause.2 (f.startClause clause.1)
    exact ⟨hrule.trans hrule', htag.trans htag'⟩

theorem addAll_of_no_clause (nodes : List Node) {f : Frame} (h : f.clauses = []) :
    f.addAll nodes = { f with body := nodes.reverse ++ f.body } := by
  induction nodes generalizing f with
  | nil => rfl
  | cons node nodes ih =>
    have hadd : f.add node = { f with body := node :: f.body } := by rw [add, h]
    have hrest : { f with body := node :: f.body }.addAll nodes
        = { f with body := nodes.reverse ++ node :: f.body } := ih h
    rw [addAll, List.foldl_cons, hadd]
    refine hrest.trans ?_
    simp

theorem addAll_of_clause (nodes : List Node) {f : Frame} {tag : TagSource} {body : List Node}
    {clauses : List (TagSource × List Node)} (h : f.clauses = (tag, body) :: clauses) :
    f.addAll nodes = { f with clauses := (tag, nodes.reverse ++ body) :: clauses } := by
  induction nodes generalizing f body with
  | nil => rw [List.reverse_nil, List.nil_append, ← h]; rfl
  | cons node nodes ih =>
    have hadd : f.add node = { f with clauses := (tag, node :: body) :: clauses } := by rw [add, h]
    rw [addAll, List.foldl_cons, hadd]
    refine (ih rfl).trans ?_
    simp

theorem block_addClauses (clauses : List (TagSource × List Node)) (f : Frame) :
    (f.addClauses clauses).block = { f.block with clauses := f.block.clauses ++ clauses } := by
  induction clauses generalizing f with
  | nil => simp [addClauses]
  | cons clause clauses ih =>
    have hfirst : (f.startClause clause.1).addAll clause.2
        = { f with clauses := (clause.1, clause.2.reverse) :: f.clauses } := by
      rw [addAll_of_clause clause.2 rfl, List.append_nil]
      rfl
    rw [addClauses, List.foldl_cons, hfirst]
    refine (ih _).trans ?_
    simp [block]

/-- A block whose parts are filled in order. -/
def filled (rule : BlockRule) (tag : TagSource) (nodes : List Node)
    (clauses : List (TagSource × List Node)) : Frame :=
  (({ rule, tag } : Frame).addAll nodes).addClauses clauses

theorem of_filled (rule : BlockRule) (tag : TagSource) (nodes : List Node)
    (clauses : List (TagSource × List Node)) :
    (filled rule tag nodes clauses).rule = rule ∧ (filled rule tag nodes clauses).tag = tag ∧
      (filled rule tag nodes clauses).block = ⟨tag, nodes, clauses⟩ := by
  obtain ⟨hrule, htag⟩ := of_addAll nodes { rule, tag }
  obtain ⟨hrule', htag'⟩ := of_addClauses clauses (({ rule, tag } : Frame).addAll nodes)
  refine ⟨hrule'.trans hrule, htag'.trans htag, ?_⟩
  rw [filled, block_addClauses, addAll_of_no_clause nodes rfl]
  simp [block]

end Frame

namespace Progress

variable {g : Grammar} {p : Progress} {tag : ScannedTag}

/-- The rule of the innermost open block. -/
def inner (p : Progress) : Option BlockRule := p.frames.head?.map Frame.rule

def addAll (nodes : List Node) (p : Progress) : Progress :=
  nodes.foldl (fun p node => p.add node) p

theorem inner_add (node : Node) (p : Progress) : (p.add node).inner = p.inner := by
  rw [add]
  split
  · rename_i h
    rw [inner, inner, h]
  · rename_i f outer h
    rw [inner, inner, h]
    exact congrArg some (Frame.of_addAll [node] f).1

theorem addAll_within (nodes : List Node) (root : List Node) (f : Frame) (outer : List Frame) :
    addAll nodes ⟨root, f :: outer⟩ = ⟨root, f.addAll nodes :: outer⟩ := by
  induction nodes generalizing f with
  | nil => rfl
  | cons node nodes ih => exact ih (f.add node)

theorem addAll_outside (nodes : List Node) (root : List Node) :
    addAll nodes ⟨root, []⟩ = ⟨nodes.reverse ++ root, []⟩ := by
  induction nodes generalizing root with
  | nil => rfl
  | cons node nodes ih =>
    refine (ih (node :: root)).trans ?_
    simp

variable (text : SourceText) (origin : Origin)

/-- A tag that neither ends nor divides a block. -/
theorem step_outer {role : Option Role} (hrole : g.role? p.inner tag.name = role)
    (hending : role ≠ some .ending) (hclause : role ≠ some .clause) :
    step g text origin p tag.piece = p.addTag g (tag.source text origin) ∧
      g.outerRole? tag.name = role := by
  cases hframes : p.frames with
  | nil =>
    have hinner : p.inner = none := by rw [inner, hframes]; rfl
    rw [hinner, Grammar.role?] at hrole
    refine ⟨?_, hrole⟩
    simp only [step, ScannedTag.piece, hframes]
    rfl
  | cons f outer =>
    have hinner : p.inner = some f.rule := by rw [inner, hframes]; rfl
    rw [hinner, Grammar.role?] at hrole
    by_cases hend : f.rule.endTag = tag.name
    · rw [if_pos hend] at hrole
      exact absurd hrole.symm hending
    · rw [if_neg hend] at hrole
      by_cases hcontains : f.rule.clauses.contains tag.name = true
      · rw [if_pos hcontains] at hrole
        exact absurd hrole.symm hclause
      · rw [if_neg hcontains] at hrole
        refine ⟨?_, hrole⟩
        simp only [step, ScannedTag.piece, hframes, if_neg hend, if_neg hcontains]
        rfl

theorem step_opening {rule : BlockRule}
    (hrole : g.role? p.inner tag.name = some (.opening rule)) :
    g.block? tag.name = some rule ∧ step g text origin p tag.piece
      = .ok { p with frames := { rule, tag := tag.source text origin } :: p.frames } := by
  obtain ⟨hstep, houter⟩ := step_outer text origin hrole (by simp) (by simp)
  rcases Grammar.outerRole?_cases houter with ⟨_, hblock, he⟩ | ⟨_, _, _, he⟩
  · cases he
    refine ⟨hblock, hstep.trans ?_⟩
    simp only [addTag, ScannedTag.source, hblock]
  · cases he

variable {kept : Action → BlockSource}

theorem step_single (hkeeps : g.Keeps kept) {rule : TagRule}
    (hrole : g.role? p.inner tag.name = some (.single rule)) :
    ∃ action, kept action = ⟨tag.source text origin, [], []⟩ ∧ step g text origin p tag.piece
      = .ok (p.add (.tag false tag.name (text.location tag.span.start) action)) := by
  obtain ⟨hstep, houter⟩ := step_outer text origin hrole (by simp) (by simp)
  rcases Grammar.outerRole?_cases houter with ⟨_, _, he⟩ | ⟨_, hblock, htag, he⟩
  · cases he
  · cases he
    obtain ⟨action, haction, hkept⟩ := hkeeps.tag htag (tag.source text origin)
    refine ⟨action, hkept, hstep.trans ?_⟩
    have hname : (tag.source text origin).name = tag.name := rfl
    simp only [addTag, hname, hblock, htag, haction]
    rfl

theorem step_clause {root : List Node} {f : Frame} {outer : List Frame}
    (hrole : g.role? (some f.rule) tag.name = some .clause) :
    step g text origin ⟨root, f :: outer⟩ tag.piece
      = .ok ⟨root, f.startClause (tag.source text origin) :: outer⟩ := by
  rw [Grammar.role?] at hrole
  by_cases hend : f.rule.endTag = tag.name
  · rw [if_pos hend] at hrole
    cases hrole
  · rw [if_neg hend] at hrole
    by_cases hcontains : f.rule.clauses.contains tag.name = true
    · simp only [step, ScannedTag.piece, if_neg hend, if_pos hcontains]
      rfl
    · rw [if_neg hcontains] at hrole
      rcases Grammar.outerRole?_cases hrole with ⟨_, _, he⟩ | ⟨_, _, _, he⟩ <;> cases he

theorem step_ending {f : Frame} {action : Action}
    (hrole : g.role? (some f.rule) tag.name = some .ending)
    (haction : f.rule.compile g.filters f.block = .ok action) (root : List Node)
    (outer : List Frame) :
    step g text origin ⟨root, f :: outer⟩ tag.piece
      = .ok (({ root, frames := outer } : Progress).add
          (.tag true f.rule.name f.tag.location action)) := by
  rw [Grammar.role?] at hrole
  by_cases hend : f.rule.endTag = tag.name
  · simp only [step, ScannedTag.piece, if_pos hend, close, haction]
    rfl
  · rw [if_neg hend] at hrole
    split at hrole
    · cases hrole
    · rcases Grammar.outerRole?_cases hrole with ⟨_, _, he⟩ | ⟨_, _, _, he⟩ <;> cases he

theorem step_misplaced (hrole : g.role? p.inner tag.name = none) :
    ∃ e, step g text origin p tag.piece = .error e ∧
      e.location = some (text.location tag.span.start) := by
  obtain ⟨hstep, houter⟩ := step_outer text origin hrole (by simp) (by simp)
  have hblock : g.block? tag.name = none := by
    cases hblock : g.block? tag.name with
    | none => rfl
    | some rule => simp [Grammar.outerRole?, hblock] at houter
  have htag : g.tag? tag.name = none := by simpa [Grammar.outerRole?, hblock] using houter
  rw [hstep]
  have hname : (tag.source text origin).name = tag.name := rfl
  simp only [addTag, hname, hblock, htag]
  split
  · exact ⟨_, rfl, rfl⟩
  · exact ⟨_, rfl, rfl⟩

end Progress

/-- Every output is an expression with known filters. -/
def OutputsCompile (g : Grammar) (text : SourceText) (pieces : List Piece) : Prop :=
  ∀ body offset span, .output body offset span ∈ pieces →
    ∃ e, text.compileExpr offset g.filters body = .ok e

namespace OutputsCompile

variable {g : Grammar} {text : SourceText} {pieces pieces' : List Piece} {piece : Piece}

theorem append (h : OutputsCompile g text (pieces ++ pieces')) :
    OutputsCompile g text pieces ∧ OutputsCompile g text pieces' :=
  ⟨fun body offset span hmem => h body offset span (List.mem_append_left _ hmem),
    fun body offset span hmem => h body offset span (List.mem_append_right _ hmem)⟩

theorem tail (h : OutputsCompile g text (piece :: pieces)) : OutputsCompile g text pieces :=
  fun body offset span hmem => h body offset span (List.mem_cons_of_mem _ hmem)

end OutputsCompile

namespace SourceTree

variable {g : Grammar} {kept : Action → BlockSource}

mutual

/-- A tree compiles to its node, wherever its tags have their roles. -/
theorem compile_walk (hkeeps : g.Keeps kept) (text : SourceText) (origin : Origin) :
    ∀ (tree : SourceTree) (p : Progress), tree.Fits g p.inner → OutputsCompile g text tree.walk →
      ∃ node, tree.Stands g kept text origin node ∧
        tree.walk.foldlM (Progress.step g text origin) p = .ok (p.add node)
  | .text s, p, _, _ => ⟨.text s, by rw [Stands], rfl⟩
  | .output body offset span, p, _, houtputs => by
    obtain ⟨e, he⟩ := houtputs body offset span (by simp [walk])
    refine ⟨.output e (text.location span.start), by rw [Stands]; exact ⟨e, he, rfl⟩, ?_⟩
    simp only [walk, List.foldlM_cons, Progress.step, he]
    rfl
  | .single tag, p, hfits, _ => by
    rw [Fits] at hfits
    obtain ⟨rule, hrole⟩ := hfits
    obtain ⟨action, hkept, hstep⟩ := Progress.step_single text origin hkeeps hrole
    refine ⟨_, by rw [Stands]; exact ⟨action, hkept, rfl⟩, ?_⟩
    simp only [walk, List.foldlM_cons, hstep]
    rfl
  | .block first body clauses last, p, hfits, houtputs => by
    rw [Fits] at hfits
    obtain ⟨rule, hfirst, hbody, hclauses, hlast⟩ := hfits
    rw [walk] at houtputs ⊢
    obtain ⟨nodes, clauseNodes, hnodes, hclauseNodes, hfold⟩ := compile_opened hkeeps text origin
      first body clauses p hfirst hbody hclauses houtputs.append.1
    let filled := Frame.filled rule (first.source text origin) nodes clauseNodes
    obtain ⟨hrule, htag, hparts⟩ :=
      Frame.of_filled rule (first.source text origin) nodes clauseNodes
    obtain ⟨hblock, -⟩ := Progress.step_opening text origin hfirst
    obtain ⟨action, haction, hkept⟩ := hkeeps.block hblock filled.block
    have hclose : Progress.step g text origin ⟨p.root, filled :: p.frames⟩ last.piece
        = .ok (p.add (.tag true rule.name (text.location first.span.start) action)) := by
      have hrole : g.role? (some filled.rule) last.name = some .ending := by rwa [hrule]
      have hstep := Progress.step_ending text origin hrole (by rwa [hrule]) p.root p.frames
      rwa [hrule, htag] at hstep
    refine ⟨.tag true rule.name (text.location first.span.start) action, ?_, ?_⟩
    · rw [Stands]
      exact ⟨rule, action, nodes, clauseNodes, hblock, hnodes, hclauseNodes, hkept.trans hparts,
        rfl⟩
    · rw [Progress.foldlM_append_of_ok hfold, Progress.foldlM_cons_of_ok hclose]
      rfl
termination_by tree => sizeOf tree

/-- An opening tag, the body and the clauses leave a frame that holds them. -/
theorem compile_opened (hkeeps : g.Keeps kept) (text : SourceText) (origin : Origin) :
    ∀ (first : ScannedTag) (body : List SourceTree)
      (clauses : List (ScannedTag × List SourceTree)) (p : Progress) {rule : BlockRule},
      g.role? p.inner first.name = some (.opening rule) → AllFit g (some rule) body →
      ClausesFit g rule clauses →
      OutputsCompile g text (first.piece :: walkAll body ++ walkClauses clauses) →
      ∃ nodes clauseNodes, AllStand g kept text origin body nodes ∧
        ClausesStand g kept text origin clauses clauseNodes ∧
        (first.piece :: walkAll body ++ walkClauses clauses).foldlM (Progress.step g text origin) p
          = .ok ⟨p.root,
              Frame.filled rule (first.source text origin) nodes clauseNodes :: p.frames⟩
  | first, body, clauses, p, rule, hfirst, hbody, hclauses, houtputs => by
    obtain ⟨hbodyOutputs, hclausesOutputs⟩ := houtputs.append
    obtain ⟨-, hopen⟩ := Progress.step_opening text origin hfirst
    let opened : Frame := { rule, tag := first.source text origin }
    obtain ⟨nodes, hnodes, hfold⟩ := compile_walkAll hkeeps text origin body
      ⟨p.root, opened :: p.frames⟩ hbody hbodyOutputs.tail
    rw [Progress.addAll_within] at hfold
    have hopened : (opened.addAll nodes).rule = rule := (Frame.of_addAll nodes opened).1
    obtain ⟨clauseNodes, hclauseNodes, hclauseFold⟩ :=
      compile_walkClauses hkeeps text origin clauses p.root (opened.addAll nodes) p.frames
        (by rwa [hopened]) hclausesOutputs
    refine ⟨nodes, clauseNodes, hnodes, hclauseNodes, ?_⟩
    rw [List.cons_append, Progress.foldlM_cons_of_ok hopen, Progress.foldlM_append_of_ok hfold]
    exact hclauseFold
termination_by _ body clauses => sizeOf body + sizeOf clauses
decreasing_by
  · exact Nat.lt_add_of_pos_right (by cases clauses <;> simp)
  · exact Nat.lt_add_of_pos_left (by cases body <;> simp)

theorem compile_walkAll (hkeeps : g.Keeps kept) (text : SourceText) (origin : Origin) :
    ∀ (trees : List SourceTree) (p : Progress), AllFit g p.inner trees →
      OutputsCompile g text (walkAll trees) →
      ∃ nodes, AllStand g kept text origin trees nodes ∧
        (walkAll trees).foldlM (Progress.step g text origin) p = .ok (p.addAll nodes)
  | [], p, _, _ => ⟨[], by rw [AllStand], rfl⟩
  | tree :: trees, p, hfit, houtputs => by
    rw [AllFit] at hfit
    rw [walkAll] at houtputs ⊢
    obtain ⟨hhead, htail⟩ := houtputs.append
    obtain ⟨node, hnode, hstep⟩ := compile_walk hkeeps text origin tree p hfit.1 hhead
    obtain ⟨nodes, hnodes, hfold⟩ := compile_walkAll hkeeps text origin trees (p.add node)
      (by rw [Progress.inner_add]; exact hfit.2) htail
    refine ⟨node :: nodes, by rw [AllStand]; exact ⟨node, nodes, rfl, hnode, hnodes⟩, ?_⟩
    rw [Progress.foldlM_append_of_ok hstep]
    exact hfold
termination_by trees => sizeOf trees

theorem compile_walkClauses (hkeeps : g.Keeps kept) (text : SourceText) (origin : Origin) :
    ∀ (clauses : List (ScannedTag × List SourceTree)) (root : List Node) (f : Frame)
      (outer : List Frame), ClausesFit g f.rule clauses →
      OutputsCompile g text (walkClauses clauses) →
      ∃ clauseNodes, ClausesStand g kept text origin clauses clauseNodes ∧
        (walkClauses clauses).foldlM (Progress.step g text origin) ⟨root, f :: outer⟩
          = .ok ⟨root, f.addClauses clauseNodes :: outer⟩
  | [], root, f, outer, _, _ => ⟨[], by rw [ClausesStand], rfl⟩
  | (tag, body) :: clauses, root, f, outer, hfit, houtputs => by
    rw [ClausesFit] at hfit
    obtain ⟨htag, hbody, hclauses⟩ := hfit
    rw [walkClauses] at houtputs ⊢
    obtain ⟨hbodyOutputs, hclausesOutputs⟩ := houtputs.append
    let started := f.startClause (tag.source text origin)
    obtain ⟨nodes, hnodes, hfold⟩ := compile_walkAll hkeeps text origin body
      ⟨root, started :: outer⟩ hbody hbodyOutputs.tail
    rw [Progress.addAll_within] at hfold
    obtain ⟨clauseNodes, hclauseNodes, hclauseFold⟩ :=
      compile_walkClauses hkeeps text origin clauses
      root (started.addAll nodes) outer (by rwa [(Frame.of_addAll nodes started).1]) hclausesOutputs
    refine ⟨(tag.source text origin, nodes) :: clauseNodes, ?_, ?_⟩
    · rw [ClausesStand]
      exact ⟨nodes, clauseNodes, rfl, hnodes, hclauseNodes⟩
    · rw [List.cons_append, Progress.foldlM_cons_of_ok (Progress.step_clause text origin htag),
        Progress.foldlM_append_of_ok hfold]
      exact hclauseFold
termination_by clauses => sizeOf clauses

end

end SourceTree

namespace LeavesOpen

variable {g : Grammar} {kept : Action → BlockSource} {text : SourceText} {pieces : List Piece}
  {stack : List (ScannedTag × BlockRule)}

theorem inner_of_frames {p : Progress} {origin : Origin}
    (h : p.frames.map (fun f => (f.tag, f.rule))
      = stack.map fun entry => (entry.1.source text origin, entry.2)) :
    p.inner = innermost stack := by
  have hheads := congrArg (fun frames => frames.head?.map Prod.snd) h
  simpa [Progress.inner, innermost, Function.comp_def] using hheads

/-- Open blocks have their frames, the innermost first. -/
theorem compile_pieces (hkeeps : g.Keeps kept) (origin : Origin) (h : LeavesOpen g pieces stack)
    (houtputs : OutputsCompile g text pieces) :
    ∃ p : Progress, pieces.foldlM (Progress.step g text origin) {} = .ok p ∧
      p.frames.map (fun f => (f.tag, f.rule))
        = stack.map fun entry => (entry.1.source text origin, entry.2) := by
  induction h with
  | @done trees hfit =>
    obtain ⟨nodes, -, hfold⟩ := SourceTree.compile_walkAll hkeeps text origin trees {} hfit houtputs
    refine ⟨_, hfold, ?_⟩
    rw [Progress.addAll_outside]
    rfl
  | @within pieces stack first rule body clauses houter hfirst hbody hclauses ih =>
    rw [List.append_assoc] at houtputs ⊢
    obtain ⟨houterOutputs, hinnerOutputs⟩ := houtputs.append
    obtain ⟨p, hp, hframes⟩ := ih houterOutputs
    rw [← inner_of_frames hframes] at hfirst
    obtain ⟨nodes, clauseNodes, -, -, hfold⟩ := SourceTree.compile_opened hkeeps text origin
      first body clauses p hfirst hbody hclauses hinnerOutputs
    obtain ⟨hrule, htag, -⟩ := Frame.of_filled rule (first.source text origin) nodes clauseNodes
    refine ⟨_, (Progress.foldlM_append_of_ok hp _).trans hfold, ?_⟩
    rw [List.map_cons, List.map_cons, hframes, hrule, htag]

end LeavesOpen

namespace Template

variable {g : Grammar} {kept : Action → BlockSource} {source : SourceText} {pieces : List Piece}

theorem compile_of_scan (hscan : Piece.scan g.rawEnd? source.text = .ok pieces) (origin : Origin) :
    compile g origin source = (do
      let p ← pieces.foldlM (Progress.step g source origin) {}
      return ⟨← p.finish, source⟩) := by
  rw [compile, hscan]
  rfl

theorem compile_trees (hkeeps : g.Keeps kept) (origin : Origin)
    (hscan : Piece.scan g.rawEnd? source.text = .ok pieces)
    (houtputs : OutputsCompile g source pieces) {trees : List SourceTree}
    (hfit : AllFit g none trees) (hwalk : walkAll trees = pieces) :
    ∃ nodes, SourceTree.AllStand g kept source origin trees nodes ∧
      compile g origin source = .ok ⟨nodes, source⟩ := by
  subst hwalk
  obtain ⟨nodes, hnodes, hfold⟩ := SourceTree.compile_walkAll hkeeps source origin trees {} hfit
    houtputs
  refine ⟨nodes, hnodes, ?_⟩
  rw [compile_of_scan hscan, hfold, Progress.addAll_outside]
  simp only [bind, Except.bind, Progress.finish, List.append_nil, List.reverse_reverse]
  rfl

theorem compile_stops (hkeeps : g.Keeps kept) (origin : Origin)
    (hscan : Piece.scan g.rawEnd? source.text = .ok pieces)
    (houtputs : OutputsCompile g source pieces) {tag : ScannedTag} (h : StopsAt g tag pieces) :
    ∃ e, compile g origin source = .error e ∧
      e.location = some (source.location tag.span.start) := by
  rw [compile_of_scan hscan]
  cases h with
  | @misplaced before stack hbefore hrole after =>
    obtain ⟨p, hp, hframes⟩ := hbefore.compile_pieces hkeeps origin houtputs.append.1
    have hinner := LeavesOpen.inner_of_frames hframes
    rw [← hinner] at hrole
    obtain ⟨e, he, hlocation⟩ := Progress.step_misplaced source origin hrole
    refine ⟨e, ?_, hlocation⟩
    rw [Progress.foldlM_append_of_ok hp, List.foldlM_cons, he]
    rfl
  | @unclosed _ rule stack hopen =>
    obtain ⟨p, hp, hframes⟩ := hopen.compile_pieces hkeeps origin houtputs
    cases hcases : p.frames with
    | nil =>
      rw [hcases] at hframes
      cases hframes
    | cons f outer =>
      rw [hcases, List.map_cons, List.map_cons] at hframes
      have htag : f.tag = tag.source source origin := (Prod.mk.inj (List.cons.inj hframes).1).1
      refine ⟨f.tag.reject (.unclosedBlock f.rule.name f.rule.endTag), ?_, ?_⟩
      · rw [hp]
        simp only [bind, Except.bind, Progress.finish, hcases]
      · rw [htag]
        rfl

theorem outputsCompile (source : SourceText)
    (h : ∀ body offset span, .output body offset span ∈ pieces →
      ∃ e, Expr.parse body = .ok e ∧ ∀ call ∈ e.filterCalls, Table.contains call.name g.filters) :
    OutputsCompile g source pieces := by
  intro body offset span hmem
  obtain ⟨e, he, hknown⟩ := h body offset span hmem
  refine ⟨e, ?_⟩
  have hfind : (e.filterCalls.find? fun call => !Table.contains call.name g.filters) = none := by
    simpa using hknown
  have hcheck : source.checkFilters offset g.filters e = .ok () := by
    simp only [SourceText.checkFilters, hfind]
  rw [SourceText.compileExpr, he]
  change source.checkFilters offset g.filters e >>= _ = _
  rw [hcheck]
  rfl

/-- Under rules that take everything, what compiles is what forms trees, and the nodes are those of
the trees. What does not compile fails where the pieces stop forming trees. -/
theorem compile_blocks (hkeeps : g.Keeps kept)
    (hscan : Piece.scan g.rawEnd? source.text = .ok pieces)
    (houtputs : ∀ body offset span, .output body offset span ∈ pieces →
      ∃ e, Expr.parse body = .ok e ∧ ∀ call ∈ e.filterCalls, Table.contains call.name g.filters)
    (origin : Origin) :
    ((∃ t, compile g origin source = .ok t) ↔
      ∃ trees, AllFit g none trees ∧ walkAll trees = pieces) ∧
    (∀ t, compile g origin source = .ok t → ∃ trees, AllFit g none trees ∧
      walkAll trees = pieces ∧ SourceTree.AllStand g kept source origin trees t.nodes) ∧
    (∀ e, compile g origin source = .error e → ∃ tag, StopsAt g tag pieces ∧
      e.location = some (source.location tag.span.start)) ∧
    (∀ tag, StopsAt g tag pieces → ∃ e, compile g origin source = .error e ∧
      e.location = some (source.location tag.span.start)) := by
  have hcompile := outputsCompile source houtputs
  have htrees {trees : List SourceTree} (hfit : AllFit g none trees)
      (hwalk : walkAll trees = pieces) :=
    compile_trees hkeeps origin hscan hcompile hfit hwalk
  have hstops {tag : ScannedTag} (hstop : StopsAt g tag pieces) :=
    compile_stops hkeeps origin hscan hcompile hstop
  have hnothing : AllFit g none [] := by simp [AllFit]
  have hcases := (LeavesOpen.done hnothing).trees_or_stops pieces
  rw [SourceTree.walkAll, List.nil_append] at hcases
  have hok {t : Template} (ht : compile g origin source = .ok t) :
      ∃ trees, AllFit g none trees ∧ walkAll trees = pieces ∧
        SourceTree.AllStand g kept source origin trees t.nodes := by
    rcases hcases with ⟨trees, hfit, hwalk⟩ | ⟨tag, hstop⟩
    · obtain ⟨nodes, hnodes, hresult⟩ := htrees hfit hwalk
      rw [ht] at hresult
      cases hresult
      exact ⟨trees, hfit, hwalk, hnodes⟩
    · obtain ⟨e, he, -⟩ := hstops hstop
      rw [ht] at he
      cases he
  refine ⟨⟨?_, ?_⟩, fun t ht => hok ht, ?_, fun tag hstop => hstops hstop⟩
  · rintro ⟨t, ht⟩
    obtain ⟨trees, hfit, hwalk, -⟩ := hok ht
    exact ⟨trees, hfit, hwalk⟩
  · rintro ⟨trees, hfit, hwalk⟩
    obtain ⟨nodes, -, hresult⟩ := htrees hfit hwalk
    exact ⟨_, hresult⟩
  · intro e he
    rcases hcases with ⟨trees, hfit, hwalk⟩ | ⟨tag, hstop⟩
    · obtain ⟨nodes, -, hresult⟩ := htrees hfit hwalk
      rw [he] at hresult
      cases hresult
    · obtain ⟨e', he', hlocation⟩ := hstops hstop
      rw [he] at he'
      cases he'
      exact ⟨tag, hstop, hlocation⟩

/-- What an outline shows. -/
def outlined : Action → BlockSource
  | .outline tag body clauses => ⟨tag, body, clauses⟩
  | _ => ⟨⟨"", "", 0, ⟨none, 1, 1, 0⟩, ⟨"", none⟩, .direct 0⟩, [], []⟩

/-- Some tags and some blocks with their clauses, all of which show how they were written. -/
def outlining (tags : List String) (blocks : List (String × List String)) : Grammar where
  tags := tags.map fun name => (name, fun _ tag => .ok (.outline tag [] []))
  blocks := blocks.map fun entry => (entry.1, Tags.outline entry.1 entry.2)

theorem outlining_keeps (tags : List String) (blocks : List (String × List String)) :
    (outlining tags blocks).Keeps outlined where
  tag h tag := by
    obtain ⟨name, -, he⟩ := List.mem_map.mp (Table.mem_of_find? h)
    cases he
    exact ⟨_, rfl, rfl⟩
  block h block := by
    obtain ⟨entry, -, he⟩ := List.mem_map.mp (Table.mem_of_find? h)
    cases he
    exact ⟨_, rfl, rfl⟩

/-- A tag that stands alone, the same as a clause, and one in a block that is not closed. -/
theorem compile_blocks_roles :
    (∃ t, compile (outlining ["mid"] [("part", ["mid"])]) (.direct 0)
      ⟨"\x7b% mid %\x7d\x7b% part %\x7da\x7b% mid %\x7d\x7b\x7b 1 \x7d\x7d\x7b% endpart %\x7d",
        none⟩ = .ok t) ∧
    ∃ e, compile (outlining ["mid"] [("part", ["mid"])]) (.direct 0)
      ⟨"a\x7b% part %\x7d\x7b% mid %\x7d\x7b% endmid %\x7d", none⟩ = .error e ∧
        e.location = some ⟨none, 1, 21, 20⟩ := by
  let g := outlining ["mid"] [("part", ["mid"])]
  let first : SourceText :=
    ⟨"\x7b% mid %\x7d\x7b% part %\x7da\x7b% mid %\x7d\x7b\x7b 1 \x7d\x7d\x7b% endpart %\x7d", none⟩
  let second : SourceText := ⟨"a\x7b% part %\x7d\x7b% mid %\x7d\x7b% endmid %\x7d", none⟩
  have hfirst : Piece.scan g.rawEnd? first.text = .ok [.tag "mid" " " 6 ⟨0, 9⟩,
      .tag "part" " " 16 ⟨9, 19⟩, .text "a", .tag "mid" " " 26 ⟨20, 29⟩, .output " 1 " 31 ⟨29, 36⟩,
      .tag "endpart" " " 46 ⟨36, 49⟩] := by cbv
  have houtput (body : String) (offset : Nat) (span : Span)
      (hmem : .output body offset span ∈ [Piece.tag "mid" " " 6 ⟨0, 9⟩,
        .tag "part" " " 16 ⟨9, 19⟩, .text "a", .tag "mid" " " 26 ⟨20, 29⟩,
        .output " 1 " 31 ⟨29, 36⟩, .tag "endpart" " " 46 ⟨36, 49⟩]) :
      ∃ e, Expr.parse body = .ok e ∧
        ∀ call ∈ e.filterCalls, Table.contains call.name g.filters := by
    have hbody : body = " 1 " := by simp_all
    have hparse : Expr.parse " 1 " = .ok (.literal (.int 1)) := by cbv
    exact ⟨_, hbody ▸ hparse, by simp [Expr.filterCalls]⟩
  have hsecond : Piece.scan g.rawEnd? second.text = .ok [.text "a", .tag "part" " " 8 ⟨1, 11⟩,
      .tag "mid" " " 17 ⟨11, 20⟩, .tag "endmid" " " 29 ⟨20, 32⟩] := by cbv
  have hkeeps := outlining_keeps ["mid"] [("part", ["mid"])]
  obtain ⟨hforms, -⟩ := compile_blocks hkeeps hfirst houtput (.direct 0)
  obtain ⟨-, -, -, hstops⟩ := compile_blocks hkeeps hsecond (by simp) (.direct 0)
  constructor
  · refine hforms.mpr ⟨[.single ⟨"mid", " ", 6, ⟨0, 9⟩⟩, .block ⟨"part", " ", 16, ⟨9, 19⟩⟩
      [.text "a"] [(⟨"mid", " ", 26, ⟨20, 29⟩⟩, [.output " 1 " 31 ⟨29, 36⟩])]
      ⟨"endpart", " ", 46, ⟨36, 49⟩⟩], ?_, rfl⟩
    simp only [AllFit, SourceTree.Fits, ClausesFit, and_true, true_and]
    exact ⟨⟨_, rfl⟩, _, rfl, rfl, rfl⟩
  · have htext : AllFit g none [.text "a"] := by simp [AllFit, SourceTree.Fits]
    have hnothing : AllFit g (some (Tags.outline "part" ["mid"])) [] := by simp [AllFit]
    have hclauses : ClausesFit g (Tags.outline "part" ["mid"])
        [(⟨"mid", " ", 17, ⟨11, 20⟩⟩, [])] := by
      simp only [ClausesFit, AllFit, and_true]
      rfl
    let opening : ScannedTag := ⟨"part", " ", 8, ⟨1, 11⟩⟩
    have hrole : g.role? none opening.name = some (.opening (Tags.outline "part" ["mid"])) := rfl
    have hopen := LeavesOpen.within (.done htext) hrole hnothing hclauses
    have hlocation : second.location 20 = ⟨none, 1, 21, 20⟩ := by cbv
    rw [← hlocation]
    exact hstops ⟨"endmid", " ", 29, ⟨20, 32⟩⟩ (.misplaced hopen rfl [])

end Template

end Stencil
