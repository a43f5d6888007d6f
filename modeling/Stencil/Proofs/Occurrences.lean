import Mathlib
import Stencil.Proofs.Faults
import Stencil.Proofs.Origins

/-!
# Occurrences of cycles

The cycle tags that a compiled template holds stand there in the order of its text, each of them
once. So no two of them have the same occurrence, and neither have tags of different templates.
-/
namespace Stencil

/-- A cycle tag of a compiled template. -/
structure CycleTag where
  occurrence : Occurrence
  group : Option Expr
  values : List Expr

def CycleTag.action (c : CycleTag) : Action := .cycle c.occurrence c.group c.values

mutual

/-- The cycle tags in nodes, in the order in which they stand. -/
def cyclesIn : List Node → List CycleTag
  | [] => []
  | node :: nodes => node.cycles ++ cyclesIn nodes

def Node.cycles : Node → List CycleTag
  | .text _ => []
  | .output .. => []
  | .tag _ _ _ action => action.cycles

def Action.cycles : Action → List CycleTag
  | .nothing => []
  | .write _ => []
  | .emit _ => []
  | .assign .. => []
  | .capture _ body => cyclesIn body
  | .conditional branches => branchCycles branches
  | .choice _ whens otherwise => whenCycles whens ++ cyclesIn otherwise
  | .loop _ _ _ body otherwise => cyclesIn body ++ cyclesIn otherwise
  | .jump _ => []
  | .cycle occurrence group values => [⟨occurrence, group, values⟩]
  | .include .. => []
  | .outline _ body clauses => cyclesIn body ++ clauseCycles clauses

def branchCycles : List (Guard × List Node) → List CycleTag
  | [] => []
  | (_, body) :: branches => cyclesIn body ++ branchCycles branches

def whenCycles : List (List Expr × List Node) → List CycleTag
  | [] => []
  | (_, body) :: whens => cyclesIn body ++ whenCycles whens

def clauseCycles : List (TagSource × List Node) → List CycleTag
  | [] => []
  | (_, body) :: clauses => cyclesIn body ++ clauseCycles clauses

end

/-- The cycle tag with a number, counting from zero. -/
def Template.cycle? (i : Nat) (t : Template) : Option CycleTag := (cyclesIn t.nodes)[i]?

theorem cyclesIn_append (nodes more : List Node) :
    cyclesIn (nodes ++ more) = cyclesIn nodes ++ cyclesIn more := by
  induction nodes with
  | nil => rfl
  | cons node nodes ih => simp only [List.cons_append, cyclesIn, ih, List.append_assoc]

theorem clauseCycles_append (clauses more : List (TagSource × List Node)) :
    clauseCycles (clauses ++ more) = clauseCycles clauses ++ clauseCycles more := by
  induction clauses with
  | nil => rfl
  | cons clause clauses ih => simp only [List.cons_append, clauseCycles, ih, List.append_assoc]

/-- The action of a tag holds no cycle but the tag itself. -/
def TagRule.Traces (rule : TagRule) : Prop :=
  ∀ filters tag action, rule filters tag = .ok action →
    (action.cycles.map CycleTag.occurrence).Sublist [tag.occurrence]

def BlockSource.cycles (block : BlockSource) : List CycleTag :=
  cyclesIn block.body ++ clauseCycles block.clauses

/-- The action of a block holds no cycles but those that stand in the block, and these in order. -/
def BlockRule.Traces (rule : BlockRule) : Prop :=
  ∀ filters block action, rule.compile filters block = .ok action →
    action.cycles.Sublist block.cycles

namespace Tags

theorem assign_traces : TagRule.Traces assign := by
  intro filters tag action h
  obtain ⟨statement, -, h⟩ := bind_eq_ok.mp h
  cases statement with
  | assignment => cases h; exact List.nil_sublist _
  | expression | loop | cycle | when | «include» => cases h

theorem jump_traces (signal : Signal) : TagRule.Traces fun _ _ => .ok (.jump signal) := by
  intro filters tag action h
  cases h
  exact List.nil_sublist _

theorem cycle_traces : TagRule.Traces cycle := by
  intro filters tag action h
  simp only [cycle] at h
  split at h
  · cases h
  · obtain ⟨statement, -, h⟩ := bind_eq_ok.mp h
    cases statement with
    | cycle => cases h; exact List.Sublist.refl _
    | expression | assignment | loop | when | «include» => cases h

theorem inclusion_traces (isolated : Bool) : TagRule.Traces (inclusion isolated) := by
  intro filters tag action h
  simp only [inclusion] at h
  split at h
  · cases h
  · obtain ⟨statement, -, h⟩ := bind_eq_ok.mp h
    cases statement with
    | «include» => cases h; exact List.nil_sublist _
    | expression | assignment | loop | cycle | when => cases h

theorem branches_cycles {filters : Filters} {clauses : List (TagSource × List Node)}
    {stated : List (Guard × List Node)} (h : branches filters clauses = .ok stated) :
    branchCycles stated = clauseCycles clauses := by
  induction clauses generalizing stated with
  | nil =>
    cases h
    rfl
  | cons clause clauses ih =>
    obtain ⟨tag, body⟩ := clause
    simp only [branches] at h
    split at h
    · cases clauses with
      | nil =>
        cases h
        rfl
      | cons next later => cases h
    · obtain ⟨guard, -, h⟩ := bind_eq_ok.mp h
      obtain ⟨rest, hrest, h⟩ := bind_eq_ok.mp h
      cases h
      simp only [branchCycles, clauseCycles, ih hrest]

theorem conditional_traces (name : String) (first : Expr → Guard) :
    (conditional name first).Traces := by
  intro filters block action h
  obtain ⟨guard, -, h⟩ := bind_eq_ok.mp h
  obtain ⟨rest, hrest, h⟩ := bind_eq_ok.mp h
  cases h
  simp only [Action.cycles, branchCycles, branches_cycles hrest]
  exact List.Sublist.refl _

theorem whens_cycles {filters : Filters} {clauses : List (TagSource × List Node)}
    {stated : List (List Expr × List Node) × List Node} (h : whens filters clauses = .ok stated) :
    whenCycles stated.1 ++ cyclesIn stated.2 = clauseCycles clauses := by
  induction clauses generalizing stated with
  | nil =>
    cases h
    rfl
  | cons clause clauses ih =>
    obtain ⟨tag, body⟩ := clause
    simp only [whens] at h
    split at h
    · cases clauses with
      | nil =>
        cases h
        simp only [whenCycles, clauseCycles, List.nil_append, List.append_nil]
      | cons next later => cases h
    · split at h
      · cases h
      · obtain ⟨statement, -, h⟩ := bind_eq_ok.mp h
        cases statement with
        | when values =>
          obtain ⟨⟨rest, otherwise⟩, hrest, h⟩ := bind_eq_ok.mp h
          cases h
          simp only [whenCycles, clauseCycles, List.append_assoc, ← ih hrest]
        | expression | assignment | loop | cycle | «include» => cases h

theorem case_traces : caseBlock.Traces := by
  intro filters block action h
  obtain ⟨subject, -, h⟩ := bind_eq_ok.mp h
  obtain ⟨⟨values, otherwise⟩, hwhens, h⟩ := bind_eq_ok.mp h
  cases h
  simp only [Action.cycles, BlockSource.cycles, ← whens_cycles hwhens]
  exact List.sublist_append_right _ _

theorem for_traces : forBlock.Traces := by
  intro filters block action h
  have h := (for_compile filters block.tag block.body block.clauses).symm.trans h
  obtain ⟨head, -, h⟩ := bind_eq_ok.mp h
  obtain ⟨otherwise, hotherwise, rfl⟩ := map_eq_ok.mp h
  simp only [Action.cycles, BlockSource.cycles]
  refine List.Sublist.append_left ?_ _
  rcases hc : block.clauses with _ | ⟨⟨tag, body⟩, _ | ⟨next, later⟩⟩
  · rw [hc] at hotherwise
    cases hotherwise
    exact List.Sublist.refl _
  · rw [hc] at hotherwise
    cases hotherwise
    simp only [clauseCycles, List.append_nil]
    exact List.Sublist.refl _
  · rw [hc] at hotherwise
    cases hotherwise

theorem capture_traces : capture.Traces := by
  intro filters block action h
  simp only [capture] at h
  split at h
  · cases h
  · cases h
  · cases h
    exact List.sublist_append_left _ _

theorem verbatim_traces {rule : BlockRule} {action : BlockSource → Action}
    (hrule : ∀ filters block, rule.compile filters block = .ok (action block))
    (hnone : ∀ block, (action block).cycles = []) : rule.Traces := by
  intro filters block made h
  rw [hrule] at h
  cases h
  rw [hnone]
  exact List.nil_sublist _

end Tags

namespace Grammar.OfStandardTags

variable {g : Grammar}

theorem tag_traces (hg : g.OfStandardTags) {name : String} {rule : TagRule}
    (h : g.tag? name = some rule) : rule.Traces := by
  obtain ⟨standard, hrule⟩ := hg.tags _ (Table.mem_of_find? h)
  simp only [standardTags, List.mem_cons, Prod.mk.injEq, List.not_mem_nil, or_false] at hrule
  rcases hrule with ⟨-, rfl⟩ | ⟨-, rfl⟩ | ⟨-, rfl⟩ | ⟨-, rfl⟩ | ⟨-, rfl⟩ | ⟨-, rfl⟩
  · exact Tags.assign_traces
  · exact Tags.jump_traces .leave
  · exact Tags.jump_traces .next
  · exact Tags.cycle_traces
  · exact Tags.inclusion_traces false
  · exact Tags.inclusion_traces true

theorem block_traces (hg : g.OfStandardTags) {name : String} {rule : BlockRule}
    (h : g.block? name = some rule) : rule.Traces := by
  have hrule := hg.blocks _ (Table.mem_of_find? h)
  simp only [standardBlocks, List.mem_cons, List.not_mem_nil, or_false] at hrule
  rcases hrule with rfl | rfl | rfl | rfl | rfl | rfl | rfl
  · exact Tags.conditional_traces "if" .holds
  · exact Tags.conditional_traces "unless" .fails
  · exact Tags.case_traces
  · exact Tags.for_traces
  · exact Tags.capture_traces
  · exact Tags.verbatim_traces (fun _ _ => rfl) fun _ => rfl
  · exact Tags.verbatim_traces (fun _ _ => rfl) fun _ => rfl

end Grammar.OfStandardTags

namespace Frame

def cycles (f : Frame) : List CycleTag := f.block.cycles

theorem cycles_add (node : Node) (f : Frame) : (f.add node).cycles = f.cycles ++ node.cycles := by
  obtain ⟨rule, tag, body, clauses⟩ := f
  cases clauses with
  | nil =>
    simp [cycles, BlockSource.cycles, block, add, cyclesIn_append, cyclesIn, clauseCycles]
  | cons clause clauses =>
    simp [cycles, BlockSource.cycles, block, add, cyclesIn_append, clauseCycles_append, cyclesIn,
      clauseCycles]

theorem cycles_startClause (tag : TagSource) (f : Frame) :
    (f.startClause tag).cycles = f.cycles := by
  simp [cycles, BlockSource.cycles, block, startClause, clauseCycles_append, cyclesIn,
    clauseCycles]

end Frame

namespace Progress

/-- The cycle tags compiled so far, in the order in which they stand. -/
def cycles (p : Progress) : List CycleTag :=
  cyclesIn p.root.reverse ++ p.frames.reverse.flatMap Frame.cycles

theorem cycles_cons (root : List Node) (f : Frame) (outer : List Frame) :
    cycles ⟨root, f :: outer⟩ = cycles ⟨root, outer⟩ ++ f.cycles := by
  simp only [cycles, List.reverse_cons, List.flatMap_append, List.flatMap_singleton,
    List.append_assoc]

theorem cycles_add (node : Node) (p : Progress) :
    (p.add node).cycles = p.cycles ++ node.cycles := by
  obtain ⟨root, frames⟩ := p
  cases frames with
  | nil => simp [cycles, add, cyclesIn_append, cyclesIn]
  | cons f frames =>
    rw [add, cycles_cons, cycles_cons, Frame.cycles_add, List.append_assoc]

/-- The open blocks keep to what is written in them, and what was compiled holds no cycles but at
some of the given occurrences, each of them once. -/
structure Holds (written : List Occurrence) (p : Progress) : Prop where
  rules : ∀ f ∈ p.frames, f.rule.Traces
  cycles : (p.cycles.map CycleTag.occurrence).Sublist written

variable {g : Grammar} {source : SourceText} {origin : Origin} {written : List Occurrence}
  {p q : Progress}

theorem Holds.later (h : p.Holds written) (more : List Occurrence) : p.Holds (written ++ more) :=
  ⟨h.rules, h.cycles.trans (List.sublist_append_left _ _)⟩

theorem Holds.add (h : p.Holds written) {node : Node} {more : List Occurrence}
    (hnode : (node.cycles.map CycleTag.occurrence).Sublist more) :
    (p.add node).Holds (written ++ more) := by
  obtain ⟨hrules, hcycles⟩ := h
  constructor
  · obtain ⟨root, frames⟩ := p
    cases frames with
    | nil => exact hrules
    | cons f frames =>
      obtain ⟨hf, hrest⟩ := List.forall_mem_cons.mp hrules
      refine List.forall_mem_cons.mpr ⟨?_, hrest⟩
      rw [Frame.rule_add]
      exact hf
  · rw [cycles_add, List.map_append]
    exact hcycles.append hnode

theorem Holds.close {filters : Filters} {root : List Node} {f : Frame} {outer : List Frame}
    (h : Holds written ⟨root, f :: outer⟩) (hq : Progress.close filters root f outer = .ok q) :
    q.Holds written := by
  obtain ⟨hf, houter⟩ := List.forall_mem_cons.mp h.rules
  obtain ⟨action, haction, hq⟩ := bind_eq_ok.mp hq
  cases hq
  have hblock : action.cycles.Sublist f.cycles := hf _ _ _ (mapError_eq_ok.mp haction)
  have houtside : Holds ((Progress.cycles ⟨root, outer⟩).map CycleTag.occurrence) ⟨root, outer⟩ :=
    ⟨houter, List.Sublist.refl _⟩
  -- what stands in the block now stands in its node, after what was outside of it
  let node : Node := .tag true f.rule.name f.tag.location action
  have hnode : (node.cycles.map CycleTag.occurrence).Sublist (f.cycles.map CycleTag.occurrence) :=
    hblock.map CycleTag.occurrence
  obtain ⟨hrules, hcycles⟩ := houtside.add hnode
  rw [← List.map_append, ← cycles_cons] at hcycles
  exact ⟨hrules, hcycles.trans h.cycles⟩

theorem Holds.addTag (hg : g.OfStandardTags) {tag : TagSource} (h : p.Holds written)
    (hq : p.addTag g tag = .ok q) : q.Holds (written ++ [tag.occurrence]) := by
  simp only [Progress.addTag] at hq
  split at hq
  · rename_i rule hrule
    cases hq
    refine ⟨List.forall_mem_cons.mpr ⟨hg.block_traces hrule, h.rules⟩, ?_⟩
    have hopened : ({ rule, tag } : Frame).cycles = [] := rfl
    rw [cycles_cons, hopened, List.append_nil]
    exact h.cycles.trans (List.sublist_append_left _ _)
  · split at hq
    · rename_i rule hrule
      obtain ⟨action, haction, hq⟩ := bind_eq_ok.mp hq
      cases hq
      exact h.add (hg.tag_traces hrule _ _ _ (mapError_eq_ok.mp haction))
    · split at hq
      · cases hq
      · cases hq

end Progress

/-- Where a tag stands, for a piece that is one. -/
def Piece.occurrence? (source : SourceText) (origin : Origin) : Piece → Option Occurrence
  | .text _ => none
  | .output .. => none
  | .tag _ _ _ span => some ⟨origin, (source.location span.start).offset⟩

namespace Progress

variable {g : Grammar} {source : SourceText} {origin : Origin} {written : List Occurrence}
  {p q : Progress} {pieces : List Piece}

theorem Holds.step (hg : g.OfStandardTags) (h : p.Holds written) {piece : Piece}
    (hq : p.step g source origin piece = .ok q) :
    q.Holds (written ++ (piece.occurrence? source origin).toList) := by
  cases piece with
  | text s =>
    cases hq
    exact h.add (List.nil_sublist _)
  | output body offset span =>
    obtain ⟨e, -, hq⟩ := bind_eq_ok.mp hq
    cases hq
    exact h.add (List.nil_sublist _)
  | tag name args offset span =>
    obtain ⟨root, frames⟩ := p
    simp only [Progress.step] at hq
    cases frames with
    | nil => exact h.addTag hg hq
    | cons f outer =>
      dsimp only at hq
      split at hq
      · exact (h.close hq).later _
      · split at hq
        · cases hq
          refine Holds.later ⟨?_, ?_⟩ _
          · obtain ⟨hfirst, houter⟩ := List.forall_mem_cons.mp h.rules
            exact List.forall_mem_cons.mpr ⟨hfirst, houter⟩
          · rw [cycles_cons, Frame.cycles_startClause, ← cycles_cons]
            exact h.cycles
        · exact h.addTag hg hq

theorem Holds.steps (hg : g.OfStandardTags) (h : p.Holds written)
    (hq : pieces.foldlM (Progress.step g source origin) p = .ok q) :
    q.Holds (written ++ pieces.filterMap (Piece.occurrence? source origin)) := by
  induction pieces generalizing p written with
  | nil =>
    cases hq
    rw [List.filterMap_nil, List.append_nil]
    exact h
  | cons piece pieces ih =>
    rw [List.foldlM_cons] at hq
    obtain ⟨mid, hmid, hq⟩ := bind_eq_ok.mp hq
    have hrest := ih (h.step hg hmid) hq
    cases ho : piece.occurrence? source origin with
    | none =>
      rw [List.filterMap_cons_none ho]
      rwa [ho, Option.toList_none, List.append_nil] at hrest
    | some o =>
      rw [List.filterMap_cons_some ho, List.append_cons]
      rwa [ho, Option.toList_some] at hrest

end Progress

namespace Piece

variable {source : SourceText} {origin : Origin} {pieces : List Piece}

theorem occurrences_sublist (pieces : List Piece) :
    (pieces.filterMap (occurrence? source origin)).Sublist
      ((pieces.filterMap span?).map fun span => ⟨origin, (source.location span.start).offset⟩) := by
  induction pieces with
  | nil => exact List.nil_sublist _
  | cons piece pieces ih =>
    cases piece with
    | text => exact ih
    | output body offset span => exact ih.cons _
    | tag name args offset span => exact ih.cons_cons _

/-- A piece of markup has its place where it starts. -/
theorem offset_of_span? {piece : Piece} (h : piece.Located source.text.toList) {span : Span}
    (hspan : piece.span? = some span) : (source.location span.start).offset = span.start := by
  obtain ⟨d, inside, before, after, hs, hstart, -⟩ := covers_of_span? h hspan
  rw [List.append_assoc] at hs
  have hle := source.le_location_offset hs (Nat.le_of_eq hstart)
  rw [hstart] at hle
  exact Nat.le_antisymm (source.location_offset_le span.start) hle

/-- No two tags of a template have the same occurrence. -/
theorem occurrences_nodup {g : Grammar} (h : scan g.rawEnd? source.text = .ok pieces) :
    (pieces.filterMap (occurrence? source origin)).Nodup := by
  have hoffset : ∀ span ∈ pieces.filterMap span?,
      (source.location span.start).offset = span.start := by
    intro span hspan
    obtain ⟨piece, hpiece, hspan⟩ := List.mem_filterMap.mp hspan
    exact offset_of_span? (located_of_scan h piece hpiece) hspan
  obtain ⟨l, -, hstands, -, rfl⟩ := scanFrom_layout h
  have hordered := hstands.ordered.sublist (l.spans_sublist false)
  refine (occurrences_sublist _).nodup (List.pairwise_map.mpr ?_)
  refine hordered.imp_of_mem fun {a b} ha hb hab heq => ?_
  have heq := congrArg Occurrence.offset heq
  simp only [hoffset a ha, hoffset b hb] at heq
  omega

theorem origin_of_mem {o : Occurrence}
    (h : o ∈ pieces.filterMap (occurrence? source origin)) : o.origin = origin := by
  obtain ⟨piece, -, ho⟩ := List.mem_filterMap.mp h
  cases piece with
  | tag => cases ho; rfl
  | text | output => cases ho

end Piece

/-- The cycle tags of a compiled template are in it once each. -/
theorem Template.cycles_nodup {g : Grammar} (hg : g.OfStandardTags) {origin : Origin}
    {source : SourceText} {t : Template} (h : compile g origin source = .ok t) :
    ((cyclesIn t.nodes).map CycleTag.occurrence).Nodup ∧
      ∀ c ∈ cyclesIn t.nodes, c.occurrence.origin = origin := by
  obtain ⟨pieces, hscan, h⟩ := bind_eq_ok.mp h
  obtain ⟨⟨root, frames⟩, hfold, h⟩ := bind_eq_ok.mp h
  obtain ⟨nodes, hnodes, h⟩ := bind_eq_ok.mp h
  cases h
  have hempty : Progress.Holds [] {} :=
    ⟨fun _ hf => (List.not_mem_nil hf).elim, List.Sublist.refl _⟩
  have hcycles := (hempty.steps hg hfold).cycles
  cases frames with
  | cons f outer => cases hnodes
  | nil =>
    cases hnodes
    simp only [Progress.cycles, List.reverse_nil, List.flatMap_nil, List.append_nil,
      List.nil_append] at hcycles
    refine ⟨hcycles.nodup (Piece.occurrences_nodup (mapError_eq_ok.mp hscan)), fun c hc => ?_⟩
    exact Piece.origin_of_mem (hcycles.subset (List.mem_map_of_mem hc))

namespace Session

/-- Two cycle tags of the templates of a render have the same occurrence only if they are one. -/
theorem Provides.occurrence_inj {g : Grammar} (hg : g.OfStandardTags) {session : Session}
    {root t u : Template} (h : session.Provides g root) (ht : session.MayRun root t)
    (hu : session.MayRun root u) {i j : Nat} {a b : CycleTag} (ha : t.cycle? i = some a)
    (hb : u.cycle? j = some b) (hab : a.occurrence = b.occurrence) : t = u ∧ i = j := by
  simp only [Template.cycle?] at ha hb
  obtain ⟨made, hmade, o, hroot⟩ := h.assigns hg
  have hengine : session.engine.grammar.OfStandardTags := h.reached.grammar ▸ hg
  obtain ⟨o, hto⟩ := ht.originates hmade hroot
  obtain ⟨o', huo⟩ := hu.originates hmade hroot
  obtain ⟨g₁, source₁, hg₁, ht⟩ := hto.compiled hmade hengine
  obtain ⟨g₂, source₂, hg₂, hu⟩ := huo.compiled hmade hengine
  obtain ⟨hnodup, ho⟩ := Template.cycles_nodup hg₁ ht
  obtain ⟨-, ho'⟩ := Template.cycles_nodup hg₂ hu
  have hsame : o = o' := by
    rw [← ho a (List.mem_of_getElem? ha), ← ho' b (List.mem_of_getElem? hb), hab]
  subst hsame
  obtain rfl : t = u := hto.eq hmade huo
  refine ⟨rfl, ?_⟩
  have hi : ((cyclesIn t.nodes).map CycleTag.occurrence)[i]? = some a.occurrence := by
    rw [List.getElem?_map, ha, Option.map_some]
  have hj : ((cyclesIn t.nodes).map CycleTag.occurrence)[j]? = some a.occurrence := by
    rw [List.getElem?_map, hb, Option.map_some, hab]
  obtain ⟨hlt, -⟩ := List.getElem?_eq_some_iff.mp hi
  exact (List.getElem?_inj hlt hnodup).mp (hi.trans hj.symm)

end Session

end Stencil
