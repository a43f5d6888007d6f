import Stencil.Proofs.LooseQuotes
import Stencil.Proofs.Tiling

/-!
# A template after another

Where a template ends with its last markup, what is written after it is scanned as a template of its
own, unless a quote in it matches a loose quote of that markup.
-/
namespace Stencil

namespace Layout

/-- The source ends with this markup. -/
def EndsIn (m : Markup) : Layout → Prop
  | .last _ => False
  | .next _ first rest => first = m ∧ rest = .last [] ∨ rest.EndsIn m

theorem EndsIn.opens {m : Markup} {l : Layout} (h : l.EndsIn m) : Markup.Opens l.source := by
  cases l with
  | last => cases h
  | next text first rest =>
    rw [source, Markup.text_eq]
    exact ⟨first.delimiter, text, first.afterOpening ++ rest.source, by simp⟩

theorem EndsIn.mem {m : Markup} {l : Layout} (h : l.EndsIn m) : m ∈ l.markups := by
  induction l with
  | last => cases h
  | next text first rest ih =>
    rcases h with ⟨rfl, -⟩ | h
    · exact List.mem_cons_self
    · exact List.mem_cons_of_mem first (ih h)

theorem mem_pieces_of_markup {m : Markup} {l : Layout} {p : Piece} (hm : m ∈ l.markups)
    (hp : m.piece? = some p) (trim : Bool) : p ∈ l.pieces trim := by
  induction l generalizing trim with
  | last => cases hm
  | next text first rest ih =>
    rw [pieces, List.mem_append, List.mem_append]
    rcases List.mem_cons.mp hm with rfl | hm
    · exact .inl (.inr (Option.mem_toList.mpr hp))
    · exact .inr (ih hm _)

/-- All markup was read where it stands. -/
theorem ReadFrom.readIn {rawEnd? : String → Option String} {pos : Nat} {cs : List Char}
    {l : Layout} {m : Markup} (h : l.ReadFrom rawEnd? pos cs) (hm : m ∈ l.markups) :
    m.ReadIn pos cs := by
  induction h with
  | last => cases hm
  | next hnext _ _ _ ih =>
    obtain ⟨rfl, -, hstands⟩ := Markup.next?_eq_some hnext
    rcases List.mem_cons.mp hm with rfl | hm
    · obtain ⟨d, tail, -, hread⟩ := Markup.next?_cases hnext
      exact Markup.readIn_of_read? hstands hread
    · exact (ih hm).later hstands
  | block hnext _ _ hraw _ _ ih =>
    obtain ⟨rfl, -, hstands⟩ := Markup.next?_eq_some hnext
    obtain ⟨rfl, hlast, -, -⟩ := Markup.rawEnd?_eq_some hraw
    rcases List.mem_cons.mp hm with rfl | hm
    · obtain ⟨d, tail, -, hread⟩ := Markup.next?_cases hnext
      exact Markup.readIn_of_read? hstands hread
    · refine Markup.ReadIn.later ?_ hstands
      rcases List.mem_cons.mp hm with rfl | hm
      · obtain ⟨start, tail, hread⟩ := Markup.read?_of_rawEnd? hraw
        exact Markup.readIn_of_read? hlast hread
      · exact (ih hm).later hlast

end Layout

namespace Piece

open Markup

variable {rawEnd? : String → Option String} {text : List Piece} {m : Markup} {rest ds : List Char}

theorem toTag_of_piece? {p : Piece} (htag : m.delimiter = .tag) (h : m.piece? = some p) :
    m.toTag = .ok p := by
  rw [piece?, htag] at h
  simp only at h
  split at h
  · cases h
  · cases htoTag : m.toTag with
    | error e => rw [htoTag] at h; cases h
    | ok tag => rw [htoTag] at h; cases h; rfl

/-- Markup that begins no raw block adds the piece that it makes. -/
theorem scanMarkup_single (hm : m.IsInlineComment ∨ m.piece?.isSome)
    (huntil : m.rawUntil? rawEnd? = none) :
    scanMarkup rawEnd? text m rest = (scanFrom rawEnd? m.span.stop m.trimAfter rest).map
      ((text ++ m.piece?.toList) ++ ·) := by
  rcases hm with hcomment | hpiece
  · rw [scanMarkup, hcomment.1, piece?_of_comment hcomment]
    simp only [hcomment.2, if_true, Option.toList_none, List.append_nil]
    cases scanFrom rawEnd? m.span.stop m.trimAfter rest <;> rfl
  · obtain ⟨p, hp⟩ := Option.isSome_iff_exists.mp hpiece
    rw [hp]
    cases hd : m.delimiter with
    | output =>
      rw [piece?_of_output hd] at hp
      cases hp
      exact scanMarkup_output hd
    | tag =>
      have htag := toTag_of_piece? hd hp
      rw [rawUntil?_of_toTag hd htag] at huntil
      exact scanMarkup_tag hd htag huntil

theorem scanMarkup_block {endTag : String} {last : Markup} {body rest' : List Char}
    (hm : m.piece?.isSome) (huntil : m.rawUntil? rawEnd? = some endTag)
    (hraw : Markup.rawEnd? endTag m.span.stop rest = .ok (some (body, last, rest')))
    (hlast : last.piece?.isSome) :
    scanMarkup rawEnd? text m rest = (scanFrom rawEnd? last.span.stop last.trimAfter rest').map
      ((text ++ m.piece?.toList ++ (ofText m.trimAfter last.trimBefore body ++ last.piece?.toList))
        ++ ·) := by
  obtain ⟨p, hp⟩ := Option.isSome_iff_exists.mp hm
  obtain ⟨endPiece, hend⟩ := Option.isSome_iff_exists.mp hlast
  have hd : m.delimiter = .tag := by
    cases hd : m.delimiter with
    | tag => rfl
    | output =>
      rw [rawUntil?, piece?_of_output hd] at huntil
      cases huntil
  have htag := toTag_of_piece? hd hp
  rw [rawUntil?_of_toTag hd htag] at huntil
  rw [scanMarkup_raw hd htag huntil hraw
    (toTag_of_piece? (rawEnd?_eq_some hraw).2.2.1 hend), hp, hend]
  simp

theorem map_pieces_append (later : Except SyntaxError (List Piece)) (first second : List Piece) :
    (later.map (second ++ ·)).map (first ++ ·) = later.map (first ++ second ++ ·) := by
  cases later with
  | error e => rfl
  | ok pieces => exact congrArg Except.ok (List.append_assoc first second pieces).symm

/-- What comes after the last markup of a template adds its pieces, if it matches none of the
quotes that the markup leaves. -/
theorem scanFrom_append {pos : Nat} {cs : List Char} {l : Layout}
    (h : l.ReadFrom rawEnd? pos cs) (hend : l.EndsIn m)
    (hloose : ∀ q ∈ m.loose, opensQuote q ds = false) (trim : Bool) :
    scanFrom rawEnd? pos trim (cs ++ ds)
      = (scanFrom rawEnd? m.span.stop m.trimAfter ds).map (l.pieces trim ++ ·) := by
  -- the last markup meets the assumption, and markup before it has no loose quotes
  have hsafe {first : Markup} {l : Layout} {start : Nat} {d : Delimiter} {tail rest : List Char}
      (hread : read? start d tail = some (first, rest)) (hrest : l.source = rest)
      (hend : first = m ∧ l = .last [] ∨ l.EndsIn m) :
      ∀ q ∈ first.looseBefore rest, opensQuote q ds = false := by
    rcases hend with ⟨rfl, rfl⟩ | hend
    · rwa [← hrest, Layout.source, looseBefore_nil]
    · rw [looseBefore_of_opens hread (hrest ▸ hend.opens)]
      exact List.forall_mem_nil _
  have hlater {first : Markup} {l : Layout} {rest : List Char} (hrest : l.source = rest)
      (hend : first = m ∧ l = .last [] ∨ l.EndsIn m)
      (ih : l.EndsIn m → ∀ trim, scanFrom rawEnd? first.span.stop trim (rest ++ ds)
        = (scanFrom rawEnd? m.span.stop m.trimAfter ds).map (l.pieces trim ++ ·)) :
      scanFrom rawEnd? first.span.stop first.trimAfter (rest ++ ds)
        = (scanFrom rawEnd? m.span.stop m.trimAfter ds).map (l.pieces first.trimAfter ++ ·) := by
    rcases hend with ⟨rfl, rfl⟩ | hend
    · have hnone : Layout.pieces first.trimAfter (.last []) = [] := by
        cases first.trimAfter <;> rfl
      rw [← hrest, Layout.source, List.nil_append, hnone]
      cases scanFrom rawEnd? first.span.stop first.trimAfter ds <;> rfl
    · exact ih hend first.trimAfter
  induction h generalizing trim with
  | last => cases hend
  | next hnext hm huntil hrest ih =>
    obtain ⟨d, tail, -, hread⟩ := next?_cases hnext
    have happend := next?_append_right hnext (hsafe hread hrest.source_eq hend)
    rw [scanFrom_of_some _ _ happend, scanMarkup_single hm huntil,
      hlater hrest.source_eq hend ih, map_pieces_append]
    rfl
  | @block pos cs before rest body rest' first last l endTag hnext hm huntil hraw hlast hrest ih =>
    have hrestSource : (Layout.next body last l).source = rest := by
      rw [Layout.source, hrest.source_eq, (rawEnd?_eq_some hraw).1]
    -- the tag of a raw block has its end after it, so that it is not the last markup
    have hendLast : last = m ∧ l = .last [] ∨ l.EndsIn m := by
      rcases hend with ⟨-, hnone⟩ | hend
      · cases hnone
      · exact hend
    obtain ⟨d, tail, -, hread⟩ := next?_cases hnext
    obtain ⟨start, endTail, hreadEnd⟩ := read?_of_rawEnd? hraw
    obtain ⟨endPiece, hendPiece⟩ := Option.isSome_iff_exists.mp hlast
    have hname := (toTag_eq_ok (toTag_of_piece? (rawEnd?_eq_some hraw).2.2.1 hendPiece)).1
    have happend := next?_append_right hnext (hsafe hread hrestSource (.inr hendLast))
    have hrawAppend := rawEnd?_append hraw hname (hsafe hreadEnd hrest.source_eq hendLast)
    rw [scanFrom_of_some _ _ happend, scanMarkup_block hm huntil hrawAppend hlast,
      hlater hrest.source_eq hendLast ih, map_pieces_append]
    simp only [Layout.pieces, List.append_assoc]

theorem scanFrom_of_readFrom {pos : Nat} {cs : List Char} {l : Layout}
    (h : l.ReadFrom rawEnd? pos cs) (trim : Bool) :
    scanFrom rawEnd? pos trim cs = .ok (l.pieces trim) := by
  induction h generalizing trim with
  | last hnext => exact scanFrom_of_none hnext
  | next hnext hm huntil _ ih =>
    rw [scanFrom_of_some _ _ hnext, scanMarkup_single hm huntil, ih]
    rfl
  | block hnext hm huntil hraw hlast _ ih =>
    rw [scanFrom_of_some _ _ hnext, scanMarkup_block hm huntil hraw hlast, ih, Layout.pieces,
      Layout.pieces]
    simp only [Except.map, List.append_assoc]

end Piece

theorem Layout.StandsAt.stop_eq {l : Layout} {m : Markup} {pos : Nat} (h : l.StandsAt pos)
    (hend : l.EndsIn m) : m.span.stop = pos + byteLength l.source := by
  induction l generalizing pos with
  | last => cases hend
  | next text first rest ih =>
    obtain ⟨hfirst, hrest⟩ := h
    have hstop : first.span.stop = pos + byteLength text + byteLength first.text := by
      rw [hfirst.span]
    rw [source, byteLength_append, byteLength_append]
    rcases hend with ⟨rfl, rfl⟩ | hend
    · rw [hstop, source, byteLength_nil]
      omega
    · rw [ih hrest hend, hstop]
      omega

theorem append_inj_of_byteLength {cs ds cs' ds' : List Char} (h : cs ++ ds = cs' ++ ds')
    (hlength : byteLength cs = byteLength cs') : cs = cs' ∧ ds = ds' := by
  constructor
  · rw [← takeBytes_append cs ds, h, hlength, takeBytes_append]
  · rw [← dropBytes_append cs ds, h, hlength, dropBytes_append]

namespace Markup

theorem loose_of_comment {m : Markup} {pos : Nat} (hstands : m.StandsAt pos)
    (h : m.IsInlineComment) : m.loose = [] := by
  have hcomment : isComment (afterDash m.afterOpening) := by
    rw [← List.append_nil m.afterOpening, hstands.inside_eq]
    exact isComment_append _ h.2
  rw [loose, looseAfter, h.1, hcomment]
  exact looseQuotes_of_false

theorem delimiter_of_piece? {m m' : Markup} {p : Piece} (h : m.piece? = some p)
    (h' : m'.piece? = some p) : m'.delimiter = m.delimiter := by
  rcases piece?_cases h with ⟨hd, rfl⟩ | ⟨hd, _, _, -, rfl⟩
  · rcases piece?_cases h' with ⟨hd', -⟩ | ⟨-, _, _, -, he⟩
    · rw [hd, hd']
    · cases he
  · rcases piece?_cases h' with ⟨-, he⟩ | ⟨hd', -⟩
    · cases he
    · rw [hd, hd']

end Markup

/-- The last markup is found in a longer template only if no loose quote of it is matched there. -/
theorem Layout.ReadFrom.not_opens {rawEnd? : String → Option String} {cs ds : List Char}
    {l l' : Layout} {m : Markup} (h : l.ReadFrom rawEnd? 0 cs) (hend : l.EndsIn m)
    (h' : l'.ReadFrom rawEnd? 0 (cs ++ ds)) (hpieces : l.pieces false ⊆ l'.pieces false) :
    ∀ q ∈ m.loose, Markup.opensQuote q ds = false := by
  obtain ⟨front, back, hcs, hstands, start, hread⟩ := h.readIn hend.mem
  rcases h.complete.piece hend.mem with hcomment | hpiece
  · rw [Markup.loose_of_comment hstands hcomment]
    exact List.forall_mem_nil _
  · obtain ⟨p, hp⟩ := Option.isSome_iff_exists.mp hpiece
    rcases mem_pieces (hpieces (mem_pieces_of_markup hend.mem hp false)) with
      ⟨s, rfl⟩ | ⟨m', hm', hp'⟩
    · cases Markup.span?_of_piece? hp
    · obtain ⟨front', back', hcs', hstands', start', hread'⟩ := h'.readIn hm'
      have hspan : m'.span = m.span :=
        Option.some.inj ((Markup.span?_of_piece? hp').symm.trans (Markup.span?_of_piece? hp))
      have hdelimiter := Markup.delimiter_of_piece? hp hp'
      have hback : back = [] := by
        have hstop := h.stands.stop_eq hend
        rw [h.source_eq, hcs, hstands.span] at hstop
        simp only [byteLength_append] at hstop
        exact eq_nil_of_byteLength (by omega)
      -- two pieces with one range were read from the same characters
      rw [hstands.span, hstands'.span, Span.mk.injEq] at hspan
      rw [hcs, hback, List.append_nil, List.append_assoc, List.append_assoc] at hcs'
      obtain ⟨-, hrest⟩ := append_inj_of_byteLength hcs' (by omega)
      obtain ⟨htext, rfl⟩ := append_inj_of_byteLength hrest (by omega)
      rw [Markup.text_eq, Markup.text_eq, hdelimiter, List.append_cancel_left_eq] at htext
      rw [hdelimiter, ← htext] at hread'
      rw [hback, List.append_nil] at hread
      exact Markup.not_opens_of_read?_append hread hread'

/-- The last markup of a template, with no text after it. -/
def Markup.IsLastOf (g : Grammar) (source : String) (m : Markup) : Prop :=
  ∃ l : Layout, l.ReadFrom g.rawEnd? 0 source.toList ∧ l.EndsIn m

namespace Piece

open Markup

/-- What is written after the last markup of a template is scanned as it would be alone exactly if
no quote in it matches one that the markup leaves. -/
theorem scan_append {g : Grammar} {a b : String} {pieces later : List Piece} {m : Markup}
    (hscan : scan g.rawEnd? a = .ok pieces) (hlater : scan g.rawEnd? b = .ok later)
    (hlast : m.IsLastOf g a) (hdash : m.trimAfter = false) :
    scan g.rawEnd? (a ++ b) = .ok (pieces ++ later.map (shift a.utf8ByteSize)) ↔
      ∀ q ∈ m.loose, opensQuote q b.toList = false := by
  obtain ⟨l, hread, hend⟩ := hlast
  obtain rfl : l.pieces false = pieces :=
    Except.ok.inj ((scanFrom_of_readFrom hread false).symm.trans hscan)
  constructor
  · intro hboth
    rw [scan, String.toList_append] at hboth
    obtain ⟨l', hread', hpieces⟩ := exists_readFrom hboth
    exact hread.not_opens hend hread' (hpieces ▸ List.subset_append_left _ _)
  · intro hloose
    have hstop : m.span.stop = a.utf8ByteSize := by
      rw [hread.stands.stop_eq hend, hread.source_eq, byteLength_toList, Nat.zero_add]
    rw [scan, String.toList_append, scanFrom_append hread hend hloose, hstop, hdash, map_scanFrom,
      followedBy, hlater]
    rfl

/-- The tag of `if it's`. -/
def apostropheTag : Markup := ⟨.tag, " if it's ".toList, 2, ⟨0, 13⟩, false, false⟩

theorem isLastOf_apostropheTag :
    apostropheTag.IsLastOf Grammar.standard "\x7b% if it's %\x7d" :=
  ⟨.next [] apostropheTag (.last []),
    .next (by cbv) (.inr (by cbv)) (by cbv) (.last (by cbv)), .inl ⟨rfl, rfl⟩⟩

/-- The match of the apostrophe comes after markup opens, so that it stays ordinary. -/
theorem scan_append_apostrophe :
    scan Grammar.standard.rawEnd? ("\x7b% if it's %\x7d" ++ "\x7b\x7b 'y' \x7d\x7d")
      = .ok [.tag "if" " it's " 5 ⟨0, 13⟩, .output " 'y' " 15 ⟨13, 22⟩] := by
  have hquote : apostropheTag.loose = ['\''] := by cbv
  have hloose : ∀ q ∈ apostropheTag.loose,
      opensQuote q "\x7b\x7b 'y' \x7d\x7d".toList = false := by
    rw [hquote, List.forall_mem_singleton]
    cbv
  exact (scan_append (by cbv) (by cbv) isLastOf_apostropheTag rfl).mpr hloose

/-- A tag that reads `it's` is read otherwise where `it's` comes after it: the two apostrophes
enclose a quoted text, the end of the tag included. -/
theorem scan_append_fails_at_apostrophes :
    ¬ ∀ (a b : String) (pieces later : List Piece) (m : Markup),
      scan Grammar.standard.rawEnd? a = .ok pieces → m.IsLastOf Grammar.standard a →
      m.trimAfter = false → scan Grammar.standard.rawEnd? b = .ok later →
      scan Grammar.standard.rawEnd? (a ++ b)
        = .ok (pieces ++ later.map (shift a.utf8ByteSize)) := by
  intro h
  have hboth := h "\x7b% if it's %\x7d" "it's" [.tag "if" " it's " 5 ⟨0, 13⟩] [.text "it's"]
    apostropheTag (by cbv) isLastOf_apostropheTag rfl (by cbv)
  have herror : scan Grammar.standard.rawEnd? ("\x7b% if it's %\x7d" ++ "it's")
      = .error ⟨.unclosedMarkup "\x7b%" "%\x7d", ⟨0, 17⟩⟩ := by cbv
  rw [herror] at hboth
  cases hboth

end Piece

end Stencil
