import Mathlib
import Stencil.Proofs.Markup
import Stencil.Proofs.Spans
import Stencil.Tags.Standard

/-!
# How pieces cover their template

A template is text and markup in turns. The pieces are what is left of the texts, and the markup that
is no comment, in the order of the source; the ranges that they state are those of the source.
-/
namespace Stencil

namespace Markup

def IsInlineComment (m : Markup) : Prop := m.delimiter = .tag ∧ isComment m.inner

/-- The piece that markup makes. -/
def piece? (m : Markup) : Option Piece :=
  match m.delimiter with
  | .output => some (.output (String.ofList m.inner) m.offset m.span)
  | .tag => if isComment m.inner then none else m.toTag.toOption

/-- The tag up to which the text after markup is raw. -/
def rawUntil? (rawEnd? : String → Option String) (m : Markup) : Option String :=
  match m.piece? with
  | some (.tag name _ _ _) => rawEnd? name
  | _ => none

variable {m : Markup} {rawEnd? : String → Option String}

theorem piece?_of_output (h : m.delimiter = .output) :
    m.piece? = some (.output (String.ofList m.inner) m.offset m.span) := by
  rw [piece?, h]

theorem piece?_of_comment (h : m.IsInlineComment) : m.piece? = none := by
  rw [piece?, h.1]
  exact if_pos h.2

theorem piece?_of_toTag {piece : Piece} (htag : m.delimiter = .tag) (h : m.toTag = .ok piece) :
    m.piece? = some piece := by
  have hcomment : isComment m.inner = false := isComment_eq_false_of_tagName (toTag_eq_ok h).1
  rw [piece?, htag, h]
  simp [hcomment, Except.toOption]

theorem rawUntil?_of_toTag {piece : Piece} (htag : m.delimiter = .tag) (h : m.toTag = .ok piece) :
    m.rawUntil? rawEnd? = rawEnd? (String.ofList (tagName m.inner)) := by
  rw [rawUntil?, piece?_of_toTag htag h, (toTag_eq_ok h).2]

end Markup

/-- A text with markup in it. -/
inductive Layout where
  | last (text : List Char)
  | next (text : List Char) (markup : Markup) (rest : Layout)

namespace Layout

def source : Layout → List Char
  | .last text => text
  | .next text m rest => text ++ m.text ++ rest.source

def markups : Layout → List Markup
  | .last _ => []
  | .next _ m rest => m :: rest.markups

/-- The texts without the blanks that dashes take away, as far as anything is left of them, and
the markup between them. `trim` is the dash before the first text. -/
def pieces : Bool → Layout → List Piece
  | trim, .last text => Piece.ofText trim false text
  | trim, .next text m rest =>
    Piece.ofText trim m.trimBefore text ++ m.piece?.toList ++ rest.pieces m.trimAfter

/-- The markup states where it stands in a source of which `pos` bytes come before. -/
def StandsAt : Nat → Layout → Prop
  | _, .last _ => True
  | pos, .next text m rest => m.StandsAt (pos + byteLength text) ∧ rest.StandsAt m.span.stop

/-- Every opening delimiter is that of some markup. Only a raw block may have others in its body,
which goes up to the end tag. -/
def Complete (rawEnd? : String → Option String) : Option String → Layout → Prop
  | none, .last text => Markup.Plain text []
  | none, .next text m rest =>
    Markup.Plain text m.text ∧ (m.IsInlineComment ∨ m.piece?.isSome) ∧
      rest.Complete rawEnd? (m.rawUntil? rawEnd?)
  | some _, .last _ => False
  | some endTag, .next _ m rest =>
    m.delimiter = .tag ∧ String.ofList (Text.trim m.inner) = endTag ∧ m.piece?.isSome ∧
      rest.Complete rawEnd? none

/-- The texts and the markup that the scanner finds, from `pos` on. -/
inductive ReadFrom (rawEnd? : String → Option String) : Nat → List Char → Layout → Prop where
  | last {pos : Nat} {cs : List Char} (hnext : Markup.next? pos cs = .ok none) :
      ReadFrom rawEnd? pos cs (.last cs)
  | next {pos : Nat} {cs before rest : List Char} {m : Markup} {l : Layout}
      (hnext : Markup.next? pos cs = .ok (some (before, m, rest)))
      (hm : m.IsInlineComment ∨ m.piece?.isSome) (huntil : m.rawUntil? rawEnd? = none)
      (hrest : ReadFrom rawEnd? m.span.stop rest l) : ReadFrom rawEnd? pos cs (.next before m l)
  | block {pos : Nat} {cs before rest body rest' : List Char} {m last : Markup} {l : Layout}
      {endTag : String} (hnext : Markup.next? pos cs = .ok (some (before, m, rest)))
      (hm : m.piece?.isSome) (huntil : m.rawUntil? rawEnd? = some endTag)
      (hraw : Markup.rawEnd? endTag m.span.stop rest = .ok (some (body, last, rest')))
      (hlast : last.piece?.isSome) (hrest : ReadFrom rawEnd? last.span.stop rest' l) :
      ReadFrom rawEnd? pos cs (.next before m (.next body last l))

variable {rawEnd? : String → Option String} {pos : Nat} {cs : List Char} {l : Layout}

theorem ReadFrom.source_eq (h : ReadFrom rawEnd? pos cs l) : l.source = cs := by
  induction h with
  | last => rfl
  | next hnext _ _ _ ih => rw [source, ih, (Markup.next?_eq_some hnext).1]
  | block hnext _ _ hraw _ _ ih =>
    rw [source, source, ih, ← (Markup.rawEnd?_eq_some hraw).1, (Markup.next?_eq_some hnext).1]

theorem ReadFrom.stands (h : ReadFrom rawEnd? pos cs l) : l.StandsAt pos := by
  induction h with
  | last => trivial
  | next hnext _ _ _ ih => exact ⟨(Markup.next?_eq_some hnext).2.2, ih⟩
  | block hnext _ _ hraw _ _ ih =>
    exact ⟨(Markup.next?_eq_some hnext).2.2, (Markup.rawEnd?_eq_some hraw).2.1, ih⟩

theorem ReadFrom.complete (h : ReadFrom rawEnd? pos cs l) : l.Complete rawEnd? none := by
  induction h with
  | last hnext => exact Markup.next?_eq_none hnext
  | next hnext hm huntil _ ih =>
    refine ⟨(Markup.next?_eq_some hnext).2.1, hm, ?_⟩
    rwa [huntil]
  | block hnext hm huntil hraw hlast _ ih =>
    obtain ⟨-, -, htag, hends⟩ := Markup.rawEnd?_eq_some hraw
    refine ⟨(Markup.next?_eq_some hnext).2.1, .inr hm, ?_⟩
    rw [huntil]
    exact ⟨htag, hends, hlast, ih⟩

end Layout

namespace Piece

open Markup

variable {rawEnd? : String → Option String} {pos : Nat} {cs : List Char}

/-- The source has a layout from `pos` on that makes these pieces. -/
def LaidOut (rawEnd? : String → Option String) (awaited : Option String) (pos : Nat) (trim : Bool)
    (cs : List Char) (pieces : List Piece) : Prop :=
  ∃ l : Layout, l.source = cs ∧ l.StandsAt pos ∧ l.Complete rawEnd? awaited ∧
    l.pieces trim = pieces

/-- The pieces of a template that scans are those of what the scanner finds in it. -/
theorem exists_readFrom {trim : Bool} {pieces : List Piece}
    (h : scanFrom rawEnd? pos trim cs = .ok pieces) :
    ∃ l, Layout.ReadFrom rawEnd? pos cs l ∧ l.pieces trim = pieces := by
  fun_induction scanFrom rawEnd? pos trim cs generalizing pieces
  case case1 => cases h
  case case2 pos trim cs hnext =>
    cases h
    exact ⟨.last cs, .last hnext, rfl⟩
  case case3 pos trim cs before m rest hnext text hd ih =>
    obtain ⟨pieces, hrest, hpieces⟩ := bind_eq_ok.mp h
    cases hpieces
    obtain ⟨l, hl, rfl⟩ := ih hrest
    have hpiece := piece?_of_output hd
    have huntil : m.rawUntil? rawEnd? = none := by rw [rawUntil?, hpiece]
    refine ⟨.next before m l, .next hnext (.inr (by rw [hpiece]; rfl)) huntil hl, ?_⟩
    simp [Layout.pieces, hpiece, text]
  case case4 pos trim cs before m rest hnext text hd hcomment ih =>
    obtain ⟨pieces, hrest, hpieces⟩ := bind_eq_ok.mp h
    cases hpieces
    obtain ⟨l, hl, rfl⟩ := ih hrest
    have hpiece := piece?_of_comment ⟨hd, hcomment⟩
    have huntil : m.rawUntil? rawEnd? = none := by rw [rawUntil?, hpiece]
    refine ⟨.next before m l, .next hnext (.inl ⟨hd, hcomment⟩) huntil hl, ?_⟩
    simp [Layout.pieces, hpiece, text]
  case case5 pos trim cs before m rest hnext text hd hcomment name ih ihraw =>
    obtain ⟨tag, htag, h⟩ := bind_eq_ok.mp h
    have hpiece := piece?_of_toTag hd htag
    have hsome : m.piece?.isSome := by rw [hpiece]; rfl
    have huntil : m.rawUntil? rawEnd? = rawEnd? name := rawUntil?_of_toTag hd htag
    split at h
    · rename_i hname
      obtain ⟨pieces, hrest, hpieces⟩ := bind_eq_ok.mp h
      cases hpieces
      obtain ⟨l, hl, rfl⟩ := ih hrest
      refine ⟨.next before m l, .next hnext (.inr hsome) (huntil.trans hname) hl, ?_⟩
      simp [Layout.pieces, hpiece, text]
    · rename_i endTag hname
      split at h
      · cases h
      · cases h
      · rename_i body last rest' hraw
        obtain ⟨endPiece, hend, h⟩ := bind_eq_ok.mp h
        obtain ⟨pieces, hrest, hpieces⟩ := bind_eq_ok.mp h
        cases hpieces
        obtain ⟨l, hl, rfl⟩ := ihraw endTag body last rest' hraw hrest
        have hlast := piece?_of_toTag (rawEnd?_eq_some hraw).2.2.1 hend
        refine ⟨.next before m (.next body last l), .block hnext hsome (huntil.trans hname) hraw
          (by rw [hlast]; rfl) hl, ?_⟩
        simp [Layout.pieces, hpiece, hlast, text]

/-- A template that scans is laid out in full, and the pieces are those of the layout. -/
theorem scanFrom_layout {trim : Bool} {pieces : List Piece}
    (h : scanFrom rawEnd? pos trim cs = .ok pieces) : LaidOut rawEnd? none pos trim cs pieces := by
  obtain ⟨l, hl, hpieces⟩ := exists_readFrom h
  exact ⟨l, hl.source_eq, hl.stands, hl.complete, hpieces⟩

end Piece

/-- The range is one of markup, and `part` is what stands at `offset`, within the delimiters. -/
structure Span.Locates (span : Span) (cs : List Char) (d : Delimiter) (part : List Char)
    (offset : Nat) : Prop where
  markup : ∃ inside, span.Covers cs (d.opening.toList ++ inside ++ d.closing.toList)
  covers : Span.Covers ⟨offset, offset + byteLength part⟩ cs part
  opened : span.start + 2 ≤ offset
  closed : offset + byteLength part + 2 ≤ span.stop

namespace Piece

def span? : Piece → Option Span
  | .text _ => none
  | .output _ _ span => some span
  | .tag _ _ _ span => some span

/-- What a piece states about the source is so. -/
def Located (cs : List Char) : Piece → Prop
  | .text _ => True
  | .output body offset span => span.Locates cs .output body.toList offset
  | .tag _ args offset span => span.Locates cs .tag args.toList offset

/-- The part of the source that a piece stands for. -/
def sourceText (cs : List Char) : Piece → List Char
  | .text s => s.toList
  | .output _ _ span => span.slice cs
  | .tag _ _ _ span => span.slice cs

theorem exists_of_mem_ofText {trimStart trimEnd : Bool} {cs : List Char} {p : Piece}
    (h : p ∈ ofText trimStart trimEnd cs) : ∃ s, p = .text s := by
  have hleft : ∀ left : List Char,
      p ∈ (if left.isEmpty then [] else [Piece.text (String.ofList left)]) → ∃ s, p = .text s := by
    intro left hp
    split at hp
    · cases hp
    · exact ⟨_, List.mem_singleton.mp hp⟩
  exact hleft _ h

theorem filterMap_span?_ofText (trimStart trimEnd : Bool) (cs : List Char) :
    (ofText trimStart trimEnd cs).filterMap span? = [] := by
  rw [List.filterMap_eq_nil_iff]
  intro p hp
  obtain ⟨s, rfl⟩ := exists_of_mem_ofText hp
  rfl

theorem sourceText_ofText (cs text : List Char) :
    (ofText false false text).flatMap (sourceText cs) = text := by
  cases text <;> simp [ofText, sourceText]

end Piece

namespace Markup

variable {m : Markup} {p : Piece} {front : List Char}

theorem tagArgs_suffix (inner : List Char) : tagArgs inner <:+ inner :=
  (List.dropWhile_suffix isTagNamePart).trans (List.dropWhile_suffix Text.isBlank)

theorem piece?_cases (h : m.piece? = some p) :
    m.delimiter = .output ∧ p = .output (String.ofList m.inner) m.offset m.span ∨
    m.delimiter = .tag ∧ ∃ skipped args, m.inner = skipped ++ args ∧
      p = .tag (String.ofList (tagName m.inner)) (String.ofList args)
        (m.offset + byteLength skipped) m.span := by
  unfold piece? at h
  split at h
  · rename_i hd
    cases h
    exact .inl ⟨hd, rfl⟩
  · rename_i hd
    split at h
    · cases h
    · cases htag : m.toTag with
      | error e => rw [htag] at h; cases h
      | ok tag =>
        rw [htag] at h
        cases h
        obtain ⟨skipped, hskipped⟩ := tagArgs_suffix m.inner
        have hoffset : byteLength m.inner - byteLength (tagArgs m.inner) = byteLength skipped := by
          have hlength := congrArg byteLength hskipped
          rw [byteLength_append] at hlength
          omega
        refine .inr ⟨hd, skipped, tagArgs m.inner, hskipped.symm, ?_⟩
        rw [(toTag_eq_ok htag).2, hoffset]

theorem span?_of_piece? (h : m.piece? = some p) : p.span? = some m.span := by
  rcases piece?_cases h with ⟨-, rfl⟩ | ⟨-, skipped, args, -, rfl⟩ <;> rfl

theorem StandsAt.covers (h : m.StandsAt (byteLength front)) (back : List Char) :
    m.span.Covers (front ++ m.text ++ back) m.text := by
  rw [h.span]
  exact Span.covers_append front m.text back

theorem StandsAt.locates {skipped part : List Char} (h : m.StandsAt (byteLength front))
    (back : List Char) (hinner : m.inner = skipped ++ part) :
    m.span.Locates (front ++ m.text ++ back) m.delimiter part
      (m.offset + byteLength skipped) := by
  have hopening : m.offset = byteLength front + (2 + byteLength (dash m.trimBefore)) := by
    rw [h.offset, byteLength_append, Delimiter.byteLength_opening]
  have htext : byteLength m.text = 2 + byteLength (dash m.trimBefore) +
      (byteLength skipped + byteLength part) + byteLength (dash m.trimAfter) + 2 := by
    simp only [text, hinner, byteLength_append, Delimiter.byteLength_opening,
      Delimiter.byteLength_closing]
  constructor
  · refine ⟨dash m.trimBefore ++ m.inner ++ dash m.trimAfter, ?_⟩
    have hwhole : m.span.Covers (front ++ m.text ++ back) m.text := h.covers back
    simpa only [text, List.append_assoc] using hwhole
  · have hpart := Span.covers_append
      (front ++ m.delimiter.opening.toList ++ dash m.trimBefore ++ skipped) part
      (dash m.trimAfter ++ m.delimiter.closing.toList ++ back)
    have hstart : byteLength (front ++ m.delimiter.opening.toList ++ dash m.trimBefore ++ skipped)
        = m.offset + byteLength skipped := by
      simp only [byteLength_append, Delimiter.byteLength_opening, hopening]
      omega
    rw [hstart] at hpart
    simpa only [text, hinner, List.append_assoc] using hpart
  · rw [h.span, hopening]
    simp only
    omega
  · rw [h.span, hopening, htext]
    simp only
    omega

theorem StandsAt.located (h : m.StandsAt (byteLength front)) (back : List Char)
    (hp : m.piece? = some p) : p.Located (front ++ m.text ++ back) := by
  rcases piece?_cases hp with ⟨hd, rfl⟩ | ⟨hd, skipped, args, hinner, rfl⟩
  · have hbody := h.locates back (List.nil_append m.inner).symm
    rw [hd] at hbody
    simpa [Piece.Located] using hbody
  · have hargs := h.locates back hinner
    rw [hd] at hargs
    simpa [Piece.Located] using hargs

end Markup

namespace Layout

variable {l : Layout} {m : Markup} {p : Piece} {pos : Nat}

/-- Markup stands where the bytes before it end. -/
theorem StandsAt.markup (h : l.StandsAt pos) (hm : m ∈ l.markups) :
    ∃ front back, l.source = front ++ m.text ++ back ∧ m.StandsAt (pos + byteLength front) := by
  induction l generalizing pos with
  | last text => cases hm
  | next text first rest ih =>
    obtain ⟨hfirst, hrest⟩ := h
    rcases List.mem_cons.mp hm with rfl | hm
    · exact ⟨text, rest.source, rfl, hfirst⟩
    · obtain ⟨front, back, hsource, hstands⟩ := ih hrest hm
      refine ⟨text ++ first.text ++ front, back, ?_, ?_⟩
      · rw [source, hsource]
        simp only [List.append_assoc]
      · rw [hfirst.span] at hstands
        simpa only [byteLength_append, Nat.add_assoc] using hstands

theorem StandsAt.ordered (h : l.StandsAt pos) :
    (l.markups.map (·.span)).Pairwise fun a b => a.start < b.start ∧ a.stop ≤ b.start := by
  induction l generalizing pos with
  | last text => exact .nil
  | next text first rest ih =>
    obtain ⟨hfirst, hrest⟩ := h
    refine .cons ?_ (ih hrest)
    intro b hb
    obtain ⟨m, hm, rfl⟩ := List.mem_map.mp hb
    obtain ⟨front, back, -, hstands⟩ := hrest.markup hm
    -- markup is as long as its delimiters at least, so what follows starts after it
    have hlength : 4 ≤ byteLength first.text := by
      simp only [Markup.text, byteLength_append, Delimiter.byteLength_opening,
        Delimiter.byteLength_closing]
      omega
    simp only [hstands.span, hfirst.span]
    omega

theorem spans_sublist (l : Layout) (trim : Bool) :
    ((l.pieces trim).filterMap Piece.span?).Sublist (l.markups.map (·.span)) := by
  induction l generalizing trim with
  | last text => rw [pieces, Piece.filterMap_span?_ofText]; exact .slnil
  | next text m rest ih =>
    rw [pieces, List.filterMap_append, List.filterMap_append, Piece.filterMap_span?_ofText,
      List.nil_append, markups, List.map_cons]
    cases hp : m.piece? with
    | none => exact (ih m.trimAfter).cons m.span
    | some p =>
      have hspan : [p].filterMap Piece.span? = [m.span] := by
        simp [Markup.span?_of_piece? hp]
      rw [Option.toList_some, hspan]
      exact (ih m.trimAfter).cons_cons m.span

theorem mem_pieces {trim : Bool} (h : p ∈ l.pieces trim) :
    (∃ s, p = .text s) ∨ ∃ m ∈ l.markups, m.piece? = some p := by
  induction l generalizing trim with
  | last text => exact .inl (Piece.exists_of_mem_ofText h)
  | next text m rest ih =>
    rcases List.mem_append.mp h with h | h
    · rcases List.mem_append.mp h with h | h
      · exact .inl (Piece.exists_of_mem_ofText h)
      · exact .inr ⟨m, List.mem_cons_self, Option.mem_toList.mp h⟩
    · refine (ih h).imp_right ?_
      rintro ⟨m', hm', hp⟩
      exact ⟨m', List.mem_cons_of_mem m hm', hp⟩

theorem Complete.piece {rawEnd? : String → Option String} {awaited : Option String}
    (h : l.Complete rawEnd? awaited) (hm : m ∈ l.markups) :
    m.IsInlineComment ∨ m.piece?.isSome := by
  induction l generalizing awaited with
  | last text => cases hm
  | next text first rest ih =>
    cases awaited with
    | none =>
      obtain ⟨-, hfirst, hrest⟩ := h
      rcases List.mem_cons.mp hm with rfl | hm
      · exact hfirst
      · exact ih hrest hm
    | some endTag =>
      obtain ⟨-, -, hfirst, hrest⟩ := h
      rcases List.mem_cons.mp hm with rfl | hm
      · exact .inr hfirst
      · exact ih hrest hm

/-- Where no dash takes anything away and nothing is a comment, the pieces add up to the source. -/
theorem flatMap_sourceText (cs : List Char) (hslice : ∀ m ∈ l.markups, m.span.slice cs = m.text)
    (hkept : ∀ m ∈ l.markups, m.trimBefore = false ∧ m.trimAfter = false ∧ m.piece?.isSome) :
    (l.pieces false).flatMap (Piece.sourceText cs) = l.source := by
  induction l with
  | last text => exact Piece.sourceText_ofText cs text
  | next text m rest ih =>
    obtain ⟨hbefore, hafter, hpiece⟩ := hkept m List.mem_cons_self
    obtain ⟨p, hp⟩ := Option.isSome_iff_exists.mp hpiece
    have hrest := ih (fun m' hm' => hslice m' (List.mem_cons_of_mem m hm'))
      (fun m' hm' => hkept m' (List.mem_cons_of_mem m hm'))
    -- the texts keep all blanks, so that each step adds its text and its markup
    have hmarkup : p.sourceText cs = m.text := by
      rw [← hslice m List.mem_cons_self]
      rcases Markup.piece?_cases hp with ⟨-, rfl⟩ | ⟨-, skipped, args, -, rfl⟩ <;> rfl
    rw [pieces, hbefore, hafter, hp, List.flatMap_append, List.flatMap_append,
      Piece.sourceText_ofText, hrest, source]
    simp [hmarkup]

end Layout

/-- How pieces make up the source they were read from. -/
structure Tiles (g : Grammar) (source : List Char) (pieces : List Piece) (l : Layout) : Prop where
  source_eq : l.source = source
  stands : l.StandsAt 0
  complete : l.Complete g.rawEnd? none
  pieces_eq : l.pieces false = pieces
  ordered : (pieces.filterMap Piece.span?).Pairwise fun a b => a.start < b.start ∧ a.stop ≤ b.start
  located : ∀ p ∈ pieces, p.Located source
  /-- Without dashes and comments nothing is lost. -/
  whole : (∀ m ∈ l.markups, m.trimBefore = false ∧ m.trimAfter = false ∧ ¬ m.IsInlineComment) →
    pieces.flatMap (Piece.sourceText source) = source

namespace Piece

theorem scan_tiles {g : Grammar} {source : String} {pieces : List Piece}
    (h : scan g.rawEnd? source = .ok pieces) : ∃ l, Tiles g source.toList pieces l := by
  obtain ⟨l, hsource, hstands, hcomplete, rfl⟩ := scanFrom_layout h
  have hmarkup : ∀ m ∈ l.markups, ∃ front back,
      source.toList = front ++ m.text ++ back ∧ m.StandsAt (byteLength front) := by
    intro m hm
    obtain ⟨front, back, hcs, hm⟩ := hstands.markup hm
    rw [Nat.zero_add] at hm
    exact ⟨front, back, by rw [← hsource, hcs], hm⟩
  refine ⟨l, hsource, hstands, hcomplete, rfl, ?_, ?_, ?_⟩
  · exact hstands.ordered.sublist (l.spans_sublist false)
  · intro p hp
    rcases Layout.mem_pieces hp with ⟨s, rfl⟩ | ⟨m, hm, hpiece⟩
    · trivial
    · obtain ⟨front, back, hcs, hm⟩ := hmarkup m hm
      rw [hcs]
      exact hm.located back hpiece
  · intro hplain
    rw [Layout.flatMap_sourceText source.toList, hsource]
    · intro m hm
      obtain ⟨front, back, hcs, hm⟩ := hmarkup m hm
      rw [hcs]
      exact (hm.covers back).slice_eq
    · intro m hm
      obtain ⟨hbefore, hafter, hcomment⟩ := hplain m hm
      exact ⟨hbefore, hafter, (hcomplete.piece hm).resolve_left hcomment⟩

theorem scan_tiles_raw :
    scan Grammar.standard.rawEnd? "é \x7b%- raw %\x7d \x7b\x7b b\x7b% endraw -%\x7d c" =
      .ok [.text "é", .tag "raw" " " 10 ⟨3, 13⟩, .text " \x7b\x7b b",
        .tag "endraw" " " 27 ⟨18, 31⟩, .text "c"] ∧
    ∃ l, Tiles Grammar.standard "é \x7b%- raw %\x7d \x7b\x7b b\x7b% endraw -%\x7d c".toList
      [.text "é", .tag "raw" " " 10 ⟨3, 13⟩, .text " \x7b\x7b b", .tag "endraw" " " 27 ⟨18, 31⟩,
        .text "c"] l :=
  ⟨by cbv, scan_tiles (by cbv)⟩

/-- A dash that is alone in its markup belongs to the opening delimiter. -/
example : scan Grammar.standard.rawEnd? "a \x7b\x7b-\x7d\x7d b" =
    .ok [.text "a", .output "" 5 ⟨2, 7⟩, .text " b"] := by cbv

end Piece

end Stencil
