import Mathlib
import Stencil.Proofs.Blame
import Stencil.Proofs.Blocks
import Stencil.Proofs.Tiling

/-!
# Where compilation fails

A template that does not compile has a piece of markup at which the compiler stops: one that is not
closed or names no tag, the first one that does not compile where it stands, a tag to blame for the
block that ends there, or the tag of a block that is left open. The error is in that piece.
-/
namespace Stencil

open Stencil.Part (AllSigned)

namespace Markup

/-- What may be wrong with the markup of a text: it is not closed, it names no tag, or it begins a
raw block that does not end. -/
inductive Faulty (rawEnd? : String → Option String) (cs : List Char) : SyntaxError → Prop where
  | unclosed {d : Delimiter} {before inside : List Char}
    (hcs : cs = before ++ d.opening.toList ++ inside)
    (hread : read? (byteLength before) d inside = none) :
    Faulty rawEnd? cs (unclosed d (byteLength before) (byteLength cs))
  | unnamed {m : Markup} {before after : List Char} (hcs : cs = before ++ m.text ++ after)
    (hstands : m.StandsAt (byteLength before)) (hname : tagName m.inner = []) :
    Faulty rawEnd? cs ⟨.tagNameExpected, m.span⟩
  | unended {m : Markup} {before after : List Char} {endTag : String}
    (hcs : cs = before ++ m.text ++ after) (hstands : m.StandsAt (byteLength before))
    (hname : rawEnd? (String.ofList (tagName m.inner)) = some endTag)
    (hraw : Markup.rawEnd? endTag m.span.stop after = .ok none) :
    Faulty rawEnd? cs ⟨.unclosedBlock (String.ofList (tagName m.inner)) endTag, m.span⟩

theorem Faulty.covers {rawEnd? : String → Option String} {cs : List Char} {e : SyntaxError}
    (h : Faulty rawEnd? cs e) :
    ∃ (d : Delimiter) (inside : List Char), e.span.Covers cs (d.opening.toList ++ inside) := by
  have hmarkup {m : Markup} {before after : List Char} (hcs : cs = before ++ m.text ++ after)
      (hstands : m.StandsAt (byteLength before)) :
      ∃ (d : Delimiter) (inside : List Char), m.span.Covers cs (d.opening.toList ++ inside) := by
    have hcovers := hstands.covers after
    rw [← hcs] at hcovers
    refine ⟨m.delimiter, dash m.trimBefore ++ m.inner ++ dash m.trimAfter ++
      m.delimiter.closing.toList, ?_⟩
    simpa only [text, List.append_assoc] using hcovers
  cases h with
  | @unclosed d before inside hcs hread =>
    have hcovers := Span.covers_append before (d.opening.toList ++ inside) []
    rw [List.append_nil, ← byteLength_append, ← List.append_assoc, ← hcs] at hcovers
    exact ⟨d, inside, hcovers⟩
  | unnamed hcs hstands hname => exact hmarkup hcs hstands
  | unended hcs hstands hname hraw => exact hmarkup hcs hstands

/-- Where no markup is read, an opening delimiter is never closed. -/
theorem next?_eq_error {pos : Nat} {cs : List Char} {e : SyntaxError}
    (h : next? pos cs = .error e) :
    ∃ (d : Delimiter) (before inside : List Char), cs = before ++ d.opening.toList ++ inside ∧
      read? (pos + byteLength before) d inside = none ∧
      e = unclosed d (pos + byteLength before) (pos + byteLength cs) := by
  unfold next? at h
  split at h
  · cases h
  · rename_i before d inside hopening
    simp only at h
    split at h
    · cases h
    · rename_i hread
      cases h
      exact ⟨d, before, inside, (opening?_eq_some hopening).1, hread, rfl⟩

theorem rawEnd?_eq_error {endTag : String} {pos : Nat} {cs : List Char} {e : SyntaxError}
    (h : Markup.rawEnd? endTag pos cs = .error e) :
    ∃ before inside, cs = before ++ Delimiter.tag.opening.toList ++ inside ∧
      read? (pos + byteLength before) .tag inside = none ∧
      e = unclosed .tag (pos + byteLength before) (pos + byteLength cs) := by
  induction cs generalizing pos with
  | nil => cases h
  | cons c cs ih =>
    have later (h : (Markup.rawEnd? endTag (pos + c.utf8Size) cs).map (Found.prepend c)
        = .error e) : ∃ before inside, c :: cs = before ++ Delimiter.tag.opening.toList ++ inside ∧
          read? (pos + byteLength before) .tag inside = none ∧
          e = unclosed .tag (pos + byteLength before) (pos + byteLength (c :: cs)) := by
      obtain ⟨before, inside, hcs, hread, he⟩ := ih (map_eq_error.mp h)
      refine ⟨c :: before, inside, by rw [hcs]; rfl, ?_, ?_⟩
      · rwa [byteLength_cons, ← Nat.add_assoc]
      · rwa [byteLength_cons, byteLength_cons, ← Nat.add_assoc, ← Nat.add_assoc]
    rw [rawEnd?_cons] at h
    split at h
    · rename_i hopen
      obtain ⟨tail, rfl⟩ := List.head?_eq_some_iff.mp hopen.2
      split at h
      · rename_i hread
        cases h
        exact ⟨[], tail, by rw [hopen.1]; rfl, hread, rfl⟩
      · split at h
        · cases h
        · exact later h
    · exact later h

theorem toTag_eq_error {m : Markup} {e : SyntaxError} (h : m.toTag = .error e) :
    tagName m.inner = [] ∧ e = ⟨.tagNameExpected, m.span⟩ := by
  unfold toTag at h
  split at h
  · rename_i hname
    cases h
    exact ⟨hname, rfl⟩
  · cases h

end Markup

namespace Piece

open Markup

variable {rawEnd? : String → Option String}

/-- Markup that follows some text, where the text starts and where it ends. -/
theorem stands_after {pos : Nat} {cs front before rest : List Char} {m : Markup}
    (hpos : pos = byteLength front) (hcs : cs = before ++ m.text ++ rest)
    (hstands : m.StandsAt (pos + byteLength before)) :
    front ++ cs = front ++ before ++ m.text ++ rest ∧ m.StandsAt (byteLength (front ++ before)) ∧
      m.span.stop = byteLength (front ++ before ++ m.text) := by
  rw [hpos, ← byteLength_append] at hstands
  refine ⟨by rw [hcs]; simp only [List.append_assoc], hstands, ?_⟩
  rw [hstands.span, byteLength_append (front ++ before)]

/-- A template that does not scan has faulty markup. -/
theorem scanFrom_eq_error {pos : Nat} {trim : Bool} {cs front : List Char} {e : SyntaxError}
    (hpos : pos = byteLength front) (h : scanFrom rawEnd? pos trim cs = .error e) :
    Faulty rawEnd? (front ++ cs) e := by
  have unclosed_faulty {d : Delimiter} {before inside cs : List Char}
      (hcs : cs = before ++ d.opening.toList ++ inside) {front : List Char}
      (hread : read? (byteLength front + byteLength before) d inside = none) :
      Faulty rawEnd? (front ++ cs) (unclosed d (byteLength front + byteLength before)
        (byteLength front + byteLength cs)) := by
    rw [← byteLength_append] at hread ⊢
    rw [← byteLength_append]
    refine .unclosed ?_ hread
    rw [hcs]
    simp only [List.append_assoc]
  fun_induction scanFrom rawEnd? pos trim cs generalizing front
  case case1 pos trim cs e' hnext =>
    cases h
    obtain ⟨d, before, inside, hcs, hread, rfl⟩ := next?_eq_error hnext
    subst hpos
    exact unclosed_faulty hcs hread
  case case2 => cases h
  case case3 pos trim cs before m rest hnext text hd ih =>
    obtain ⟨hcs, -, hstands⟩ := next?_eq_some hnext
    obtain ⟨hwhole, -, hstop⟩ := stands_after hpos hcs hstands
    rcases bind_eq_error.mp h with h | ⟨pieces, -, h⟩
    · rw [hwhole]
      exact ih hstop h
    · cases h
  case case4 pos trim cs before m rest hnext text hd hcomment ih =>
    obtain ⟨hcs, -, hstands⟩ := next?_eq_some hnext
    obtain ⟨hwhole, -, hstop⟩ := stands_after hpos hcs hstands
    rcases bind_eq_error.mp h with h | ⟨pieces, -, h⟩
    · rw [hwhole]
      exact ih hstop h
    · cases h
  case case5 pos trim cs before m rest hnext text hd hcomment name ih ihraw =>
    obtain ⟨hcs, -, hstands⟩ := next?_eq_some hnext
    obtain ⟨hwhole, hstands, hstop⟩ := stands_after hpos hcs hstands
    rw [hwhole]
    rcases bind_eq_error.mp h with h | ⟨tag, -, h⟩
    · obtain ⟨hname, rfl⟩ := toTag_eq_error h
      exact .unnamed rfl hstands hname
    · split at h
      · rcases bind_eq_error.mp h with h | ⟨pieces, -, h⟩
        · exact ih hstop h
        · cases h
      · rename_i endTag hname
        split at h
        -- the body of a raw block may hold a tag that is not closed
        · rename_i e' hraw
          cases h
          obtain ⟨body, inside, hrest, hread, rfl⟩ := rawEnd?_eq_error hraw
          rw [hstop] at hread ⊢
          exact unclosed_faulty hrest hread
        · rename_i hraw
          cases h
          exact .unended rfl hstands hname hraw
        · rename_i body last rest' hraw
          obtain ⟨hrest, hlast, -, -⟩ := rawEnd?_eq_some hraw
          obtain ⟨hwhole, hlast, hlaststop⟩ := stands_after hstop hrest hlast
          rw [hwhole]
          rcases bind_eq_error.mp h with h | ⟨endPiece, -, h⟩
          · obtain ⟨hname, rfl⟩ := toTag_eq_error h
            exact .unnamed rfl hlast hname
          · rcases bind_eq_error.mp h with h | ⟨pieces, -, h⟩
            · exact ihraw endTag body last rest' hraw hlaststop h
            · cases h

theorem scan_eq_error {source : String} {e : SyntaxError} (h : scan rawEnd? source = .error e) :
    Faulty rawEnd? source.toList e := by
  have hfaulty : Faulty rawEnd? ([] ++ source.toList) e := scanFrom_eq_error rfl h
  rwa [List.nil_append] at hfaulty

end Piece

namespace Progress

/-- The innermost block, if a piece ends it. -/
def ended? (p : Progress) : Piece → Option Frame
  | .tag name _ _ _ => p.frames.head?.filter fun f => f.rule.endTag = name
  | _ => none

end Progress

/-- The piece of markup at which the compiler stops. -/
inductive FailsAt (g : Grammar) (origin : Origin) (source : SourceText) : Span → Prop where
  /-- The text is not made of pieces. -/
  | unread {fault : SyntaxError} (hscan : Piece.scan g.rawEnd? source.text = .error fault)
    (hfault : Markup.Faulty g.rawEnd? source.text.toList fault) :
    FailsAt g origin source fault.span
  /-- A piece that ends no block does not compile. -/
  | piece {before after : List Piece} {p : Piece} {progress : Progress} {e : Error} {span : Span}
    (hscan : Piece.scan g.rawEnd? source.text = .ok (before ++ p :: after))
    (hbefore : before.foldlM (Progress.step g source origin) {} = .ok progress)
    (hended : progress.ended? p = none) (hspan : p.span? = some span)
    (hstep : progress.step g source origin p = .error e) : FailsAt g origin source span
  /-- A block that ends does not compile with one of its tags. -/
  | block {before after : List Piece} {p : Piece} {progress : Progress} {f : Frame}
    {tag : ScannedTag} (hscan : Piece.scan g.rawEnd? source.text = .ok (before ++ p :: after))
    (hbefore : before.foldlM (Progress.step g source origin) {} = .ok progress)
    (hended : progress.ended? p = some f) (htag : tag.piece ∈ before)
    (hblames : f.rule.Blames g.filters f.block (tag.source source origin)) :
    FailsAt g origin source tag.span
  /-- A block is left open. -/
  | unclosed {pieces : List Piece} {progress : Progress} {f : Frame} {tag : ScannedTag}
    (hscan : Piece.scan g.rawEnd? source.text = .ok pieces)
    (hpieces : pieces.foldlM (Progress.step g source origin) {} = .ok progress)
    (hopen : progress.frames.head? = some f) (htag : tag.piece ∈ pieces)
    (hfirst : f.tag = tag.source source origin) : FailsAt g origin source tag.span

/-- The error has a place in a range of a template. -/
def Error.Inside (source : SourceText) (span : Span) (e : Error) : Prop :=
  ∃ l, e.location = some l ∧ l.template = source.name ∧ span.start ≤ l.offset ∧
    l.offset < span.stop

/-- The error has a place in the piece of markup at which the compiler stops. -/
def Error.AtFault (g : Grammar) (origin : Origin) (source : SourceText) (e : Error) : Prop :=
  ∃ span, FailsAt g origin source span ∧ e.Inside source span ∧
    ∃ (d : Delimiter) (inside : List Char),
      span.Covers source.text.toList (d.opening.toList ++ inside)

section

variable {source : SourceText} {origin : Origin} {span : Span} {e : Error}

theorem Error.inside_of_covers {part : List Char} (h : span.Covers source.text.toList part)
    {target : Nat} (hstart : span.start ≤ target) (hstop : target < span.stop)
    (he : e.location = some (source.location target)) : e.Inside source span := by
  obtain ⟨before, after, hs, hbefore, -⟩ := h
  rw [List.append_assoc] at hs
  rw [← hbefore] at hstart
  refine ⟨source.location target, he, rfl, ?_, ?_⟩
  · rw [← hbefore]
    exact source.le_location_offset hs hstart
  · exact (source.location_offset_le target).trans_lt hstop

theorem Error.InText.inside {d : Delimiter} {part : String} {offset : Nat}
    (he : e.InText source offset part.utf8ByteSize)
    (h : span.Locates source.text.toList d part.toList offset) : e.Inside source span := by
  obtain ⟨n, hn, hl⟩ := he
  obtain ⟨⟨inside, hcovers⟩, -, hopened, hclosed⟩ := h
  rw [byteLength_toList] at hclosed
  exact inside_of_covers hcovers (by omega) (by omega) hl

theorem Error.AtTag.inside {tag : ScannedTag} (he : e.AtTag (tag.source source origin))
    (h : tag.piece.Located source.text.toList) : e.Inside source tag.span := by
  have hlocates : tag.span.Locates source.text.toList .tag tag.args.toList tag.offset := h
  rcases he with hl | htext
  · obtain ⟨⟨inside, hcovers⟩, -, hopened, hclosed⟩ := hlocates
    exact inside_of_covers hcovers (Nat.le_refl _) (by omega) hl
  · exact htext.inside hlocates

end

namespace Frame

/-- The tags of a block, the latest clause before the others. -/
def tags (f : Frame) : List TagSource := f.tag :: f.clauses.map Prod.fst

/-- The nodes of a block in its body and its clauses. -/
def nodes (f : Frame) : List Node := f.body ++ f.clauses.flatMap Prod.snd

theorem rule_add (node : Node) (f : Frame) : (f.add node).rule = f.rule := by
  simp only [add]
  split <;> rfl

theorem tags_add (node : Node) (f : Frame) : (f.add node).tags = f.tags := by
  simp only [add]
  split
  · rfl
  · rename_i hc
    simp only [tags, hc, List.map_cons]

theorem mem_nodes_add {node other : Node} {f : Frame} (h : other ∈ (f.add node).nodes) :
    other = node ∨ other ∈ f.nodes := by
  simp only [add] at h
  split at h
  · exact List.mem_cons.mp h
  · rename_i hc
    simp only [nodes, hc, List.flatMap_cons, List.mem_append, List.mem_cons] at h ⊢
    tauto

theorem mem_nodes_of_block {f : Frame} {node : Node}
    (h : node ∈ f.block.body ∨ ∃ clause ∈ f.block.clauses, node ∈ clause.2) : node ∈ f.nodes := by
  simp only [nodes, List.mem_append, List.mem_flatMap]
  rcases h with h | ⟨clause, hclause, h⟩
  · exact .inl (List.mem_reverse.mp h)
  · simp only [block, List.mem_reverse, List.mem_map] at hclause
    obtain ⟨⟨tag, body⟩, hmem, rfl⟩ := hclause
    exact .inr ⟨(tag, body), hmem, List.mem_reverse.mp h⟩

theorem mem_tags_of_blames {f : Frame} {filters : Filters} {tag : TagSource}
    (h : f.rule.Blames filters f.block tag) : tag ∈ f.tags := by
  cases h with
  | opening h => exact List.mem_cons_self
  | @clause earlier later tag body action e hclauses hbefore h =>
    have hclause : (tag, body) ∈ f.block.clauses := by simp [hclauses]
    simp only [block, List.mem_reverse, List.mem_map, Prod.mk.injEq] at hclause
    obtain ⟨clause, hmem, rfl, -⟩ := hclause
    exact List.mem_cons_of_mem _ (List.mem_map_of_mem hmem)

end Frame

/-- An open block of a template, of which these pieces were compiled. -/
structure Frame.From (source : SourceText) (origin : Origin) (pieces : List Piece) (f : Frame) :
    Prop where
  rule : f.rule.Located
  tags : ∀ tag ∈ f.tags, ∃ t : ScannedTag, t.piece ∈ pieces ∧ tag = t.source source origin
  nodes : ∀ node ∈ f.nodes, AllSigned source.name node.parts

structure Progress.From (source : SourceText) (origin : Origin) (pieces : List Piece)
    (p : Progress) : Prop where
  root : ∀ node ∈ p.root, AllSigned source.name node.parts
  frames : ∀ f ∈ p.frames, f.From source origin pieces

theorem allSigned_partsOf {name : Option String} {nodes : List Node}
    (h : ∀ node ∈ nodes, AllSigned name node.parts) : AllSigned name (partsOf nodes) := by
  intro p hp
  obtain ⟨node, hnode, hp⟩ := mem_partsOf.mp hp
  exact h node hnode p hp

section

variable {g : Grammar} {source : SourceText} {origin : Origin} {pieces : List Piece} {f : Frame}
  {p q : Progress} {e : Error}

namespace Frame.From

theorem later (h : f.From source origin pieces) (piece : Piece) :
    f.From source origin (pieces ++ [piece]) where
  rule := h.rule
  tags tag htag := by
    obtain ⟨t, ht, heq⟩ := h.tags tag htag
    exact ⟨t, List.mem_append_left _ ht, heq⟩
  nodes := h.nodes

theorem add (h : f.From source origin pieces) {node : Node}
    (hnode : AllSigned source.name node.parts) : (f.add node).From source origin pieces where
  rule := by
    rw [Frame.rule_add]
    exact h.rule
  tags := by
    rw [Frame.tags_add]
    exact h.tags
  nodes other hother := by
    rcases Frame.mem_nodes_add hother with rfl | hother
    · exact hnode
    · exact h.nodes other hother

theorem startClause (h : f.From source origin pieces) {t : ScannedTag} (ht : t.piece ∈ pieces) :
    (f.startClause (t.source source origin)).From source origin pieces where
  rule := h.rule
  tags tag htag := by
    rcases List.mem_cons.mp htag with rfl | htag
    · exact h.tags _ List.mem_cons_self
    · rcases List.mem_cons.mp htag with rfl | htag
      · exact ⟨t, ht, rfl⟩
      · exact h.tags tag (List.mem_cons_of_mem _ htag)
  nodes := h.nodes

theorem action (h : f.From source origin pieces) {filters : Filters} {a : Action}
    (ha : f.rule.compile filters f.block = .ok a) : AllSigned source.name a.parts := by
  refine h.rule.signed ha (allSigned_partsOf fun node hnode => ?_) fun part hpart => ?_
  · exact h.nodes node (Frame.mem_nodes_of_block (.inl hnode))
  · obtain ⟨clause, hclause, hpart⟩ := mem_clauseParts.mp hpart
    obtain ⟨node, hnode, hpart⟩ := mem_partsOf.mp hpart
    exact h.nodes node (Frame.mem_nodes_of_block (.inr ⟨clause, hclause, hnode⟩)) part hpart

end Frame.From

namespace Progress

theorem From.add (h : p.From source origin pieces) {node : Node}
    (hnode : AllSigned source.name node.parts) : (p.add node).From source origin pieces := by
  obtain ⟨hroot, hframes⟩ := h
  simp only [Progress.add]
  split
  · exact ⟨List.forall_mem_cons.mpr ⟨hnode, hroot⟩, hframes⟩
  · rename_i f frames hf
    rw [hf] at hframes
    obtain ⟨hfirst, hrest⟩ := List.forall_mem_cons.mp hframes
    exact ⟨hroot, List.forall_mem_cons.mpr ⟨hfirst.add hnode, hrest⟩⟩

theorem From.close {root : List Node} {outer : List Frame} {filters : Filters}
    (hroot : ∀ node ∈ root, AllSigned source.name node.parts) (hf : f.From source origin pieces)
    (houter : ∀ f ∈ outer, f.From source origin pieces)
    (hl : f.tag.location.template = source.name)
    (h : Progress.close filters root f outer = .ok q) : q.From source origin pieces := by
  obtain ⟨action, haction, h⟩ := bind_eq_ok.mp h
  cases h
  refine From.add ⟨hroot, houter⟩ (List.forall_mem_cons.mpr ⟨hl, ?_⟩)
  exact hf.action (mapError_eq_ok.mp haction)

theorem From.later (h : p.From source origin pieces) (piece : Piece) :
    p.From source origin (pieces ++ [piece]) :=
  ⟨h.root, fun f hf => (h.frames f hf).later piece⟩

theorem From.addTag (hg : g.OfStandardTags) {tag : ScannedTag} (h : p.From source origin pieces)
    (htag : tag.piece ∈ pieces) (hq : p.addTag g (tag.source source origin) = .ok q) :
    q.From source origin pieces := by
  simp only [Progress.addTag] at hq
  split at hq
  · rename_i rule hrule
    cases hq
    refine ⟨h.root, List.forall_mem_cons.mpr ⟨?_, h.frames⟩⟩
    refine ⟨hg.block_located hrule, fun t ht => ?_, fun _ hn => (List.not_mem_nil hn).elim⟩
    exact ⟨tag, htag, List.mem_singleton.mp ht⟩
  · split at hq
    · rename_i rule hrule
      obtain ⟨action, haction, hq⟩ := bind_eq_ok.mp hq
      cases hq
      refine h.add (List.forall_mem_cons.mpr ⟨rfl, ?_⟩)
      exact (hg.tag_located hrule).signed _ (mapError_eq_ok.mp haction)
    · split at hq
      · cases hq
      · cases hq

theorem From.step (hg : g.OfStandardTags) (h : p.From source origin pieces) {piece : Piece}
    (hq : p.step g source origin piece = .ok q) : q.From source origin (pieces ++ [piece]) := by
  have h := h.later piece
  cases piece with
  | text s =>
    cases hq
    exact h.add Part.allSigned_nil
  | output body offset span =>
    obtain ⟨e, -, hq⟩ := bind_eq_ok.mp hq
    cases hq
    refine h.add (List.forall_mem_cons.mpr ⟨trivial, List.forall_mem_singleton.mpr ?_⟩)
    exact source.location_template span.start
  | tag name args offset span =>
    let tag : ScannedTag := ⟨name, args, offset, span⟩
    have htag : tag.piece ∈ pieces ++ [.tag name args offset span] :=
      List.mem_append_right _ (List.mem_singleton.mpr rfl)
    simp only [Progress.step] at hq
    split at hq
    · exact h.addTag hg htag hq
    · rename_i f outer hf
      have hframes := h.frames
      rw [hf] at hframes
      obtain ⟨hfirst, houter⟩ := List.forall_mem_cons.mp hframes
      split at hq
      · obtain ⟨t, -, ht⟩ := hfirst.tags f.tag List.mem_cons_self
        exact From.close h.root hfirst houter (by rw [ht]; rfl) hq
      · split at hq
        · cases hq
          exact ⟨h.root, List.forall_mem_cons.mpr ⟨hfirst.startClause htag, houter⟩⟩
        · exact h.addTag hg htag hq

/-- Wherever the compiler is, the open blocks are made of what it has seen. -/
theorem From.steps (hg : g.OfStandardTags)
    (h : pieces.foldlM (Progress.step g source origin) {} = .ok p) :
    p.From source origin pieces := by
  induction pieces using List.reverseRecOn generalizing p with
  | nil =>
    cases h
    exact ⟨fun _ hn => (List.not_mem_nil hn).elim, fun _ hf => (List.not_mem_nil hf).elim⟩
  | append_singleton pieces piece ih =>
    rw [List.foldlM_append] at h
    obtain ⟨mid, hmid, h⟩ := bind_eq_ok.mp h
    rw [List.foldlM_cons] at h
    obtain ⟨last, hlast, h⟩ := bind_eq_ok.mp h
    cases h
    exact (ih hmid).step hg hlast

end Progress

theorem Error.AtTag.locatedAt {tag : TagSource} (h : e.AtTag tag) (l : Location) :
    (e.locatedAt l).AtTag tag := by
  have hplaced : ∃ m, e.location = some m := by
    rcases h with h | ⟨n, -, h⟩
    · exact ⟨_, h⟩
    · exact ⟨_, h⟩
  obtain ⟨m, hm⟩ := hplaced
  have heq : e.locatedAt l = e := by
    obtain ⟨cause, location⟩ := e
    cases hm
    exact Error.placed_of_location cause m l
  rwa [heq]

namespace Progress

theorem addTag_atTag (hg : g.OfStandardTags) {tag : TagSource} (h : p.addTag g tag = .error e) :
    e.AtTag tag := by
  simp only [Progress.addTag] at h
  split at h
  · cases h
  · split at h
    · rename_i rule hrule
      have hat := (hg.tag_located hrule).atTag g.filters tag
      rcases bind_eq_error.mp h with h | ⟨action, -, h⟩
      · cases hr : rule g.filters tag with
        | ok action =>
          rw [hr] at h
          cases h
        | error e' =>
          rw [hr] at h hat
          cases h
          exact Error.AtTag.locatedAt hat _
      · cases h
    · split at h
      · cases h
        exact .inl rfl
      · cases h
        exact .inl rfl

theorem close_blames {filters : Filters} {root : List Node} {outer : List Frame}
    (hf : f.rule.Located) (h : close filters root f outer = .error e) :
    ∃ tag, f.rule.Blames filters f.block tag ∧ e.AtTag tag := by
  rcases bind_eq_error.mp h with h | ⟨action, -, h⟩
  · cases hr : f.rule.compile filters f.block with
    | ok action =>
      rw [hr] at h
      cases h
    | error e' =>
      rw [hr] at h
      cases h
      obtain ⟨tag, hblames, hat⟩ := hf.blames hr
      exact ⟨tag, hblames, hat.locatedAt _⟩
  · cases h

/-- A piece that does not compile is at fault itself, unless it ends a block. -/
theorem step_error (hg : g.OfStandardTags) (hp : p.From source origin pieces) {piece : Piece}
    (h : p.step g source origin piece = .error e) (hl : piece.Located source.text.toList) :
    (∃ span, p.ended? piece = none ∧ piece.span? = some span ∧ e.Inside source span) ∨
      ∃ f tag, p.ended? piece = some f ∧ tag ∈ f.tags ∧ f ∈ p.frames ∧
        f.rule.Blames g.filters f.block tag ∧ e.AtTag tag := by
  cases piece with
  | text s => cases h
  | output body offset span =>
    left
    refine ⟨span, rfl, rfl, ?_⟩
    have hin : Fails _ (source.compileExpr offset g.filters body) :=
      source.compileExpr_inText offset body
    rcases bind_eq_error.mp h with h | ⟨expr, -, h⟩
    · rw [h] at hin
      exact Error.InText.inside hin hl
    · cases h
  | tag name args offset span =>
    let tag : ScannedTag := ⟨name, args, offset, span⟩
    have haddTag (hended : p.ended? tag.piece = none)
        (h : p.addTag g (tag.source source origin) = .error e) :
        ∃ span', p.ended? tag.piece = none ∧ tag.piece.span? = some span' ∧
          e.Inside source span' :=
      ⟨span, hended, rfl, Error.AtTag.inside (addTag_atTag hg h) hl⟩
    simp only [Progress.step] at h
    split at h
    · rename_i hframes
      exact .inl (haddTag (by simp [ended?, ScannedTag.piece, hframes]) h)
    · rename_i f outer hframes
      have hf : f ∈ p.frames := by simp [hframes]
      split at h
      · rename_i hend
        obtain ⟨tag', hblames, hat⟩ := close_blames (hp.frames f hf).rule h
        refine .inr ⟨f, tag', ?_, Frame.mem_tags_of_blames hblames, hf, hblames, hat⟩
        simp [ended?, hframes, hend]
      · rename_i hend
        split at h
        · cases h
        · exact .inl (haddTag (by simp [ended?, ScannedTag.piece, hframes, tag, hend]) h)

end Progress

namespace Piece

/-- What the pieces of a template state about it is so. -/
theorem located_of_scan {text : String} (h : scan g.rawEnd? text = .ok pieces) :
    ∀ p ∈ pieces, p.Located text.toList := by
  obtain ⟨l, hsource, hstands, -, rfl⟩ := scanFrom_layout h
  intro p hp
  rcases Layout.mem_pieces hp with ⟨s, rfl⟩ | ⟨m, hm, hpiece⟩
  · trivial
  · obtain ⟨front, back, hcs, hm⟩ := hstands.markup hm
    rw [Nat.zero_add] at hm
    rw [← hsource, hcs]
    exact hm.located back hpiece

theorem covers_of_span? {p : Piece} {cs : List Char} {span : Span} (hp : p.Located cs)
    (h : p.span? = some span) :
    ∃ (d : Delimiter) (inside : List Char), span.Covers cs (d.opening.toList ++ inside) := by
  have hlocates {d : Delimiter} {part : List Char} {offset : Nat}
      (hl : span.Locates cs d part offset) :
      ∃ (d : Delimiter) (inside : List Char), span.Covers cs (d.opening.toList ++ inside) := by
    obtain ⟨inside, hcovers⟩ := hl.markup
    rw [List.append_assoc] at hcovers
    exact ⟨d, inside ++ d.closing.toList, hcovers⟩
  cases p with
  | text s => cases h
  | output body offset span' =>
    cases h
    exact hlocates hp
  | tag name args offset span' =>
    cases h
    exact hlocates hp

end Piece

theorem Error.inside_of_fault {fault : SyntaxError}
    (h : Markup.Faulty g.rawEnd? source.text.toList fault) :
    (source.syntaxError 0 fault).Inside source fault.span := by
  obtain ⟨d, inside, hcovers⟩ := h.covers
  have hstop := hcovers.stop_eq
  rw [byteLength_append, Delimiter.byteLength_opening] at hstop
  refine Error.inside_of_covers hcovers (Nat.le_refl _) (by omega) ?_
  simp only [SourceText.syntaxError, Nat.zero_add]

/-- A template that does not compile fails inside a piece of its markup. -/
theorem Template.compile_atFault (hg : g.OfStandardTags)
    (h : Template.compile g origin source = .error e) : e.AtFault g origin source := by
  rcases bind_eq_error.mp h with h | ⟨pieces, hscan, h⟩
  · obtain ⟨fault, hscan, rfl⟩ := mapError_eq_error.mp h
    have hfaulty := Piece.scan_eq_error hscan
    exact ⟨fault.span, .unread hscan hfaulty, Error.inside_of_fault hfaulty, hfaulty.covers⟩
  · have hscan := mapError_eq_ok.mp hscan
    have hlocated := Piece.located_of_scan hscan
    have htagged {tag : ScannedTag} (ht : tag.piece ∈ pieces)
        (hat : e.AtTag (tag.source source origin)) : e.Inside source tag.span ∧
          ∃ (d : Delimiter) (inside : List Char),
            tag.span.Covers source.text.toList (d.opening.toList ++ inside) :=
      ⟨hat.inside (hlocated _ ht), Piece.covers_of_span? (hlocated _ ht) rfl⟩
    rcases bind_eq_error.mp h with h | ⟨progress, hfold, h⟩
    · obtain ⟨before, p, after, progress, rfl, hbefore, hstep⟩ := foldlM_eq_error h
      have hfrom := Progress.From.steps hg hbefore
      have hp : p.Located source.text.toList := hlocated p (by simp)
      rcases Progress.step_error hg hfrom hstep hp with
        ⟨span, hended, hspan, hinside⟩ | ⟨f, tag, hended, htag, hf, hblames, hat⟩
      · exact ⟨span, .piece hscan hbefore hended hspan hstep, hinside,
          Piece.covers_of_span? hp hspan⟩
      · obtain ⟨t, ht, rfl⟩ := (hfrom.frames f hf).tags tag htag
        exact ⟨t.span, .block hscan hbefore hended ht hblames,
          htagged (List.mem_append_left _ ht) hat⟩
    · have hfrom := Progress.From.steps hg hfold
      rcases bind_eq_error.mp h with h | ⟨nodes, -, h⟩
      · cases hframes : progress.frames with
        | nil =>
          simp only [Progress.finish, hframes] at h
          cases h
        | cons f outer =>
          simp only [Progress.finish, hframes] at h
          cases h
          obtain ⟨t, ht, hfirst⟩ :=
            (hfrom.frames f (by simp [hframes])).tags f.tag List.mem_cons_self
          have hopen : progress.frames.head? = some f := by simp [hframes]
          refine ⟨t.span, .unclosed hscan hfold hopen ht hfirst, htagged ht ?_⟩
          rw [← hfirst]
          exact f.tag.atTag_reject _
      · cases h

/-- The places of a compiled template are signed with its name. -/
theorem Template.compile_signed (hg : g.OfStandardTags) {template : Template}
    (h : Template.compile g origin source = .ok template) :
    template.source = source ∧ AllSigned source.name (partsOf template.nodes) := by
  obtain ⟨pieces, -, h⟩ := bind_eq_ok.mp h
  obtain ⟨progress, hfold, h⟩ := bind_eq_ok.mp h
  obtain ⟨nodes, hnodes, h⟩ := bind_eq_ok.mp h
  cases h
  have hfrom := Progress.From.steps hg hfold
  refine ⟨rfl, ?_⟩
  simp only [Progress.finish] at hnodes
  split at hnodes
  · cases hnodes
    exact allSigned_partsOf fun node hnode => hfrom.root node (List.mem_reverse.mp hnode)
  · cases hnodes

end

end Stencil
