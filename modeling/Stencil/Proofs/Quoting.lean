import Mathlib
import Stencil.Proofs.Scanning
import Stencil.Tags.Standard

/-!
# Where quoted text ends

The reader of markup and the lexer of expressions agree on which quotes belong together. Markup
around an expression that has tokens is closed after the expression, whatever its quoted texts hold,
as long as they open no markup.
-/
namespace Stencil

namespace Token

/-- A character that is no quote and does not end a closing delimiter. -/
def isBare (c : Char) : Bool := c ≠ '"' && c ≠ '\'' && c ≠ '}'

theorem isBare_of_isNamePart {c : Char} (h : isNamePart c) : isBare c := by
  have hdouble : c ≠ '"' := by rintro rfl; revert h; decide
  have hsingle : c ≠ '\'' := by rintro rfl; revert h; decide
  have hbrace : c ≠ '}' := by rintro rfl; revert h; decide
  simp [isBare, hdouble, hsingle, hbrace]

theorem isBare_of_isAsciiBlank {c : Char} (h : Text.isAsciiBlank c) : isBare c := by
  simp only [Text.isAsciiBlank, Bool.or_eq_true, decide_eq_true_eq] at h
  rcases h with (((rfl | rfl) | rfl) | rfl) | rfl <;> decide

theorem head?_ne_of_isBare {c : Char} (h : isBare c) (cs : List Char) :
    (c :: cs).head? ≠ some '}' := by
  rintro hc
  cases hc
  revert h
  decide

theorem isNamePart_of_isDigit {c : Char} (h : c.isDigit) : isNamePart c := by
  simp [isNamePart, Char.isAlphanum, h]

theorem isNamePart_of_isNameStart {c : Char} (h : isNameStart c) : isNamePart c := by
  simp only [isNameStart, Bool.or_eq_true] at h
  rcases h with h | h
  · simp [isNamePart, Char.isAlphanum, h]
  · simp [isNamePart, h]

variable {afterOperand : Bool} {c : Char} {cs text rest : List Char} {l : Lexeme}

theorem bare_digitsLexeme (cs : List Char) : ∀ x ∈ (digitsLexeme cs).1, isBare x := by
  have hdigits (cs : List Char) : ∀ x ∈ cs.takeWhile Char.isDigit, isBare x := fun x hx =>
    isBare_of_isNamePart (isNamePart_of_isDigit (List.mem_takeWhile_imp hx))
  unfold digitsLexeme
  split
  · rename_i d rest _
    split
    · rename_i hd
      intro x hx
      rcases List.mem_append.mp hx with hx | hx
      · exact hdigits cs x hx
      · rcases List.mem_cons.mp hx with rfl | hx
        · decide
        · rcases List.mem_cons.mp hx with rfl | hx
          · exact isBare_of_isNamePart (isNamePart_of_isDigit hd)
          · exact hdigits rest x hx
    · exact hdigits cs
  · exact hdigits cs

theorem bare_nameLexeme (cs : List Char) : ∀ x ∈ (nameLexeme cs).1, isBare x := by
  have hparts : ∀ x ∈ cs.takeWhile isNamePart, isBare x := fun x hx =>
    isBare_of_isNamePart (List.mem_takeWhile_imp hx)
  unfold nameLexeme
  split
  · intro x hx
    rcases List.mem_append.mp hx with hx | hx
    · exact hparts x hx
    · rw [List.mem_singleton.mp hx]
      decide
  · exact hparts

theorem bare_symbolLexeme? {s : Symbol} (h : symbolLexeme? cs = some (s, text, rest)) :
    ∀ x ∈ text, isBare x := by
  unfold symbolLexeme? at h
  split at h
  all_goals first
    | (simp only [Option.some.injEq, Prod.mk.injEq] at h
       obtain ⟨-, rfl, -⟩ := h
       simp [isBare])
    | cases h

/-- A token is quoted text, or it has no quote and closes no markup. -/
theorem lexeme_cases (h : lexeme afterOperand (c :: cs) = .ok l) :
    (∃ body, (c = '"' ∨ c = '\'') ∧ c ∉ body ∧ l.text = c :: body ++ [c] ∧
      l.kind = .str (String.ofList body)) ∨
    ∀ x ∈ l.text, isBare x := by
  simp only [lexeme] at h
  split at h
  · rename_i hnumber
    split at h
    · cases h
      right
      intro x hx
      rcases List.mem_cons.mp hx with rfl | hx
      · simp only [startsNumber, Bool.or_eq_true, Bool.and_eq_true, decide_eq_true_eq] at hnumber
        rcases hnumber with hdigit | ⟨⟨rfl, -⟩, -⟩
        · exact isBare_of_isNamePart (isNamePart_of_isDigit hdigit)
        · decide
      · exact bare_digitsLexeme cs x hx
    · cases h
  · split at h
    · rename_i hstart
      cases h
      right
      intro x hx
      rcases List.mem_cons.mp hx with rfl | hx
      · exact isBare_of_isNamePart (isNamePart_of_isNameStart hstart)
      · exact bare_nameLexeme cs x hx
    · split at h
      · rename_i hquote
        split at h
        · cases h
        · rename_i close rest hrest
          cases h
          -- what ends the text is the quote that begins it
          have hclose : close = c := eq_of_dropWhile_ne hrest
          refine .inl ⟨cs.takeWhile (· ≠ c), by simpa using hquote, ?_, by rw [hclose], rfl⟩
          intro hmem
          simpa using List.mem_takeWhile_imp hmem
      · split at h
        · rename_i hsymbol
          cases h
          exact .inr (bare_symbolLexeme? hsymbol)
        · cases h

end Token

namespace Markup

open Token (isBare lexFrom)

variable {d : Delimiter} {quotes : Bool} {cs ds body text : List Char} {q c : Char}

/-- Put characters before those in which markup is closed. -/
def Closed.prepend (text : List Char) (found : Option (List Char × List Char)) :
    Option (List Char × List Char) :=
  found.map fun (body, rest) => (text ++ body, rest)

theorem close?_quoted (hbody : q ∉ body) :
    close? d quotes (some q) (body ++ q :: ds)
      = Closed.prepend (body ++ [q]) (close? d quotes none ds) := by
  induction body with
  | nil => simp [close?, Closed.prepend]
  | cons c body ih =>
    have hc : c ≠ q := fun hc => hbody (hc ▸ List.mem_cons_self)
    rw [List.cons_append, close?, if_neg hc, ih fun h => hbody (List.mem_cons_of_mem c h)]
    simp [Closed.prepend, Function.comp_def]

theorem close?_quote (hc : c = '"' ∨ c = '\'') (hbody : c ∉ body) (hclear : Clear body)
    (ds : List Char) :
    close? d true none (c :: body ++ c :: ds)
      = Closed.prepend (c :: body ++ [c]) (close? d true none ds) := by
  have htake : (body ++ c :: ds).takeWhile (· ≠ c) = body := by
    have hne : ∀ x ∈ body, decide (x ≠ c) := by
      intro x hx
      exact decide_eq_true fun hxc => hbody (hxc ▸ hx)
    rw [List.takeWhile_append_of_pos hne]
    simp
  have hopens : opensQuote c (body ++ c :: ds) := by
    rw [opensQuote, htake, opening?_of_clear hclear]
    simpa using hc
  rw [List.cons_append, close?, if_pos (by simp [hopens]), close?_quoted hbody]
  simp [Closed.prepend, Function.comp_def]

theorem close?_bare (hbare : ∀ x ∈ text, isBare x) (hds : ds.head? ≠ some '}') :
    close? d quotes none (text ++ ds) = Closed.prepend text (close? d quotes none ds) := by
  induction text with
  | nil => simp [Closed.prepend]
  | cons c text ih =>
    have hc := hbare c List.mem_cons_self
    simp only [isBare, Bool.and_eq_true, decide_eq_true_eq] at hc
    obtain ⟨⟨hdouble, hsingle⟩, hbrace⟩ := hc
    have hhead : (text ++ ds).head? ≠ some '}' := by
      cases text with
      | nil => exact hds
      | cons x text =>
        have hx := hbare x (List.mem_cons_of_mem c List.mem_cons_self)
        simp only [isBare, Bool.and_eq_true, decide_eq_true_eq] at hx
        simpa using hx.2
    have hquote : opensQuote c (text ++ ds) = false := by simp [opensQuote, hdouble, hsingle]
    rw [List.cons_append, close?, if_neg (by simp [hquote]), if_neg fun h => hhead h.2,
      ih fun x hx => hbare x (List.mem_cons_of_mem c hx)]
    simp [Closed.prepend, Function.comp_def]

theorem Closed.prepend_append (text text' : List Char)
    (found : Option (List Char × List Char)) :
    prepend (text ++ text') found = prepend text (prepend text' found) := by
  simp [prepend, Function.comp_def]

/-- The reader of markup passes by an expression token by token. -/
theorem close?_lexed {pos : Nat} {afterOperand : Bool} {tokens : List Token}
    (hlex : lexFrom pos afterOperand cs = .ok tokens)
    (hstrings : ∀ s, .str s ∈ tokens.map Token.kind → Clear s.toList)
    (hds : ds.head? ≠ some '}') :
    (cs ++ ds).head? ≠ some '}' ∧
      close? d true none (cs ++ ds) = Closed.prepend cs (close? d true none ds) := by
  fun_induction lexFrom pos afterOperand cs generalizing tokens with
  | case1 => exact ⟨hds, by simp [Closed.prepend]⟩
  | case2 pos afterOperand c cs hblank ih =>
    obtain ⟨hhead, hclose⟩ := ih hlex hstrings
    have hbare : isBare c := Token.isBare_of_isAsciiBlank hblank
    have hblank : close? d true none ([c] ++ (cs ++ ds))
        = Closed.prepend [c] (close? d true none (cs ++ ds)) :=
      close?_bare (by simpa using hbare) hhead
    refine ⟨Token.head?_ne_of_isBare hbare _, ?_⟩
    rw [List.cons_append, ← List.singleton_append, hblank, hclose, ← Closed.prepend_append]
    rfl
  | case3 => cases hlex
  | case4 pos afterOperand c cs hblank l hl stop =>
    rename_i ih
    obtain ⟨tokens', hrest, htokens⟩ := bind_eq_ok.mp hlex
    cases htokens
    obtain ⟨hhead, hclose⟩ := ih hrest fun s hs => hstrings s (List.mem_cons_of_mem _ hs)
    obtain ⟨happend, hne⟩ := Token.lexeme_append hl
    rw [happend, List.append_assoc, Closed.prepend_append, ← hclose]
    rcases Token.lexeme_cases hl with ⟨body, hc, hbody, htext, hkind⟩ | hbare
    · have hclear : Clear body := by
        simpa using hstrings (String.ofList body) (hkind ▸ List.mem_cons_self)
      rw [htext]
      refine ⟨by rcases hc with rfl | rfl <;> simp, ?_⟩
      simpa using close?_quote (d := d) hc hbody hclear (l.rest ++ ds)
    · refine ⟨?_, close?_bare hbare hhead⟩
      obtain ⟨x, text, htext⟩ := List.exists_cons_of_ne_nil hne
      rw [htext] at hbare ⊢
      exact Token.head?_ne_of_isBare (hbare x List.mem_cons_self) _

theorem close?_closing (d : Delimiter) (rest : List Char) :
    close? d quotes none (' ' :: d.closing.toList ++ rest) = some ([' '], rest) := by
  rw [d.toList_closing]
  cases d <;> simp [close?, opensQuote, Delimiter.closer]

/-- Markup around the tokens of an expression, with some bare characters before them. -/
theorem read?_expression {tokens : List Token} {front : List Char}
    (hfront : ∀ x ∈ front, isBare x) (hlex : lexFrom 0 false cs = .ok tokens)
    (hstrings : ∀ s, .str s ∈ tokens.map Token.kind → Clear s.toList) (pos : Nat)
    (d : Delimiter) (rest : List Char)
    (hcomment : d = .tag →
      isComment (' ' :: front ++ cs ++ ' ' :: d.closing.toList ++ rest) = false) :
    read? pos d (' ' :: front ++ cs ++ ' ' :: d.closing.toList ++ rest) =
      some (⟨d, ' ' :: front ++ cs ++ [' '], pos + 2,
        ⟨pos, pos + byteLength front + byteLength cs + 6⟩, false, false⟩, rest) := by
  have hspace : ∀ x ∈ ' ' :: front, isBare x := by
    intro x hx
    rcases List.mem_cons.mp hx with rfl | hx
    · rfl
    · exact hfront x hx
  have hclosing : (' ' :: d.closing.toList ++ rest).head? ≠ some '}' := by simp
  obtain ⟨hhead, hlexed⟩ := close?_lexed (d := d) hlex hstrings hclosing
  have hclose : close? d true none (' ' :: front ++ cs ++ ' ' :: d.closing.toList ++ rest)
      = some (' ' :: front ++ cs ++ [' '], rest) := by
    rw [List.append_assoc, List.append_assoc, close?_bare hspace hhead, hlexed, close?_closing]
    simp [Closed.prepend]
  have hquotes : (!(d = .tag && isComment (' ' :: front ++ cs ++ ' ' :: d.closing.toList ++ rest)))
      = true := by
    cases d with
    | output => rfl
    | tag => rw [hcomment rfl]; rfl
  have hlast : (' ' :: front ++ cs ++ [' ']).getLast? ≠ some '-' := by
    rw [List.getLast?_concat]
    decide
  rw [read?_of_close (by simp) hlast (by rw [hquotes]; exact hclose)]
  have hsize : ' '.utf8Size = 1 := rfl
  simp only [List.cons_append, byteLength_cons, byteLength_append, byteLength_nil, hsize,
    Option.some.injEq, Prod.mk.injEq, Markup.mk.injEq, Span.mk.injEq, and_true, true_and]
  omega

end Markup

/-- A name that a tag can have. -/
def IsTagName (name : String) : Prop := name ≠ "" ∧ ∀ c ∈ name.toList, Markup.isTagNamePart c

namespace Markup

theorem isBare_of_isTagNamePart {c : Char} (h : isTagNamePart c) : Token.isBare c := by
  simp only [isTagNamePart, Bool.or_eq_true, decide_eq_true_eq] at h
  rcases h with h | rfl
  · exact Token.isBare_of_isNamePart (by simp [Token.isNamePart, h])
  · decide

theorem isBlank_eq_false_of_isTagNamePart {c : Char} (h : isTagNamePart c) :
    Text.isBlank c = false := by
  have hval : c.toNat = c.val.toNat := rfl
  have hpart : 48 ≤ c.toNat ∧ c.toNat ≤ 122 := by
    simp only [isTagNamePart, Char.isAlphanum, Char.isAlpha, Char.isUpper, Char.isLower,
      Char.isDigit, Bool.or_eq_true, Bool.and_eq_true, decide_eq_true_eq,
      UInt32.le_iff_toNat_le, ge_iff_le, ← hval] at h
    rcases h with (h | h) | rfl
    · have hupper : 'A'.val.toNat = 65 ∧ 'Z'.val.toNat = 90 := ⟨rfl, rfl⟩
      have hlower : 'a'.val.toNat = 97 ∧ 'z'.val.toNat = 122 := ⟨rfl, rfl⟩
      omega
    · have hdigit : '0'.val.toNat = 48 ∧ '9'.val.toNat = 57 := ⟨rfl, rfl⟩
      omega
    · decide
  simp only [Text.isBlank, Bool.or_eq_false_iff, Bool.and_eq_false_iff, decide_eq_false_iff_not]
  omega

/-- The parts of a tag of which a name and a space are known. -/
theorem tag_parts {name : String} (hname : IsTagName name) (args : List Char) :
    isComment (' ' :: name.toList ++ ' ' :: args) = false ∧
      tagName (' ' :: name.toList ++ ' ' :: args) = name.toList ∧
      tagArgs (' ' :: name.toList ++ ' ' :: args) = ' ' :: args := by
  obtain ⟨hne, hparts⟩ := hname
  have htrim : Text.trimStart (' ' :: name.toList ++ ' ' :: args) = name.toList ++ ' ' :: args := by
    obtain ⟨c, cs, hcs⟩ := List.exists_cons_of_ne_nil (l := name.toList) (by simpa using hne)
    have hblank := isBlank_eq_false_of_isTagNamePart (hparts c (hcs ▸ List.mem_cons_self))
    have hspace : Text.isBlank ' ' = true := by decide
    rw [hcs]
    simp [Text.trimStart, hspace, hblank]
  have htagName : tagName (' ' :: name.toList ++ ' ' :: args) = name.toList := by
    rw [tagName, htrim, List.takeWhile_append_of_pos hparts]
    simp [isTagNamePart]
  refine ⟨isComment_eq_false_of_tagName (by rwa [htagName, ne_eq, String.toList_eq_nil_iff]),
    htagName, ?_⟩
  rw [tagArgs, htrim, List.dropWhile_append_of_pos hparts]
  simp [isTagNamePart]

theorem toTag_named {m : Markup} {name : String} (hname : IsTagName name) {args : List Char}
    (hinner : m.inner = ' ' :: name.toList ++ ' ' :: args) :
    m.toTag = .ok (.tag name (String.ofList (' ' :: args)) (m.offset + name.utf8ByteSize + 1)
      m.span) := by
  obtain ⟨-, htagName, htagArgs⟩ := tag_parts hname args
  have hskipped : byteLength (' ' :: name.toList ++ ' ' :: args) - byteLength (' ' :: args)
      = name.utf8ByteSize + 1 := by
    have hsize : ' '.utf8Size = 1 := rfl
    rw [byteLength_append, byteLength_cons, byteLength_toList, hsize]
    omega
  rw [toTag, hinner, htagName, htagArgs, hskipped, if_neg (by simpa using hname.1),
    String.ofList_toList, Nat.add_assoc]

end Markup

namespace Piece

open Markup

theorem ofText_untrimmed (s : String) :
    ofText false false s.toList = if s = "" then [] else [.text s] := by
  simp [ofText]

/-- An expression that has tokens is the body of markup around it, wherever the markup stands. -/
theorem scan_expression {g : Grammar} {before e : String} {tokens : List Token}
    (hbefore : Clear before.toList) (hbrace : before.toList.getLast? ≠ some '{')
    (hlex : Token.tokenize e = .ok tokens)
    (hstrings : ∀ s, .str s ∈ tokens.map Token.kind → Clear s.toList) (after : String) :
    let front := if before = "" then [] else [.text before]
    let start := before.utf8ByteSize
    scan g.rawEnd? (before ++ "\x7b\x7b " ++ e ++ " \x7d\x7d" ++ after)
      = followedBy (front ++ [.output (" " ++ e ++ " ") (start + 2)
          ⟨start, start + e.utf8ByteSize + 6⟩]) (start + e.utf8ByteSize + 6)
        (scan g.rawEnd? after) ∧
    ∀ name, IsTagName name → g.rawEnd? name = none →
      scan g.rawEnd? (before ++ "\x7b% " ++ name ++ " " ++ e ++ " %\x7d" ++ after)
        = followedBy (front ++ [.tag name (" " ++ e ++ " ") (start + name.utf8ByteSize + 3)
            ⟨start, start + name.utf8ByteSize + e.utf8ByteSize + 7⟩])
          (start + name.utf8ByteSize + e.utf8ByteSize + 7) (scan g.rawEnd? after) := by
  intro front start
  obtain ⟨lexed, hlexed, hend⟩ := bind_eq_ok.mp hlex
  cases hend
  have hkinds : ∀ s, .str s ∈ lexed.map Token.kind → Clear s.toList := fun s hs =>
    hstrings s (by simpa using hs)
  have hstart : 0 + byteLength before.toList = start := by
    rw [Nat.zero_add, byteLength_toList]
  constructor
  · have hread := read?_expression (List.forall_mem_nil _) hlexed hkinds start .output
      after.toList (by simp)
    have hnext := next?_append 0 (hbefore.plain hbrace _) (hstart.symm ▸ hread)
    have hfrom := scanFrom_of_some g.rawEnd? false hnext
    rw [scanMarkup_output rfl, map_scanFrom, ofText_untrimmed] at hfrom
    simpa [scan, Delimiter.opening, Delimiter.closing, byteLength_toList, String.append_assoc,
      front, start] using hfrom
  · intro name hname hraw
    obtain ⟨hcomment, htagName, htagArgs⟩ := tag_parts hname (e.toList ++ [' '])
    have hbare : ∀ x ∈ name.toList ++ [' '], Token.isBare x := by
      intro x hx
      rcases List.mem_append.mp hx with hx | hx
      · exact isBare_of_isTagNamePart (hname.2 x hx)
      · rw [List.mem_singleton.mp hx]
        rfl
    have hread := read?_expression hbare hlexed hkinds start .tag after.toList (by
      intro _
      simpa using
        (tag_parts hname (e.toList ++ ' ' :: Delimiter.tag.closing.toList ++ after.toList)).1)
    have hnext := next?_append 0 (hbefore.plain hbrace _) (hstart.symm ▸ hread)
    have hfrom := scanFrom_of_some g.rawEnd? false hnext
    have hinner : ' ' :: (name.toList ++ [' ']) ++ e.toList ++ [' ']
        = ' ' :: name.toList ++ ' ' :: (e.toList ++ [' ']) := by simp
    rw [scanMarkup_tag rfl (toTag_named hname hinner)
      (by rw [hinner, htagName, String.ofList_toList, hraw]), map_scanFrom,
      ofText_untrimmed] at hfrom
    have hsize : ' '.utf8Size = 1 := rfl
    have hstop : start + (name.utf8ByteSize + 1) + e.utf8ByteSize + 6
        = start + name.utf8ByteSize + e.utf8ByteSize + 7 := by omega
    have hoffset : start + 2 + name.utf8ByteSize + 1 = start + name.utf8ByteSize + 3 := by omega
    simpa [scan, Delimiter.opening, Delimiter.closing, byteLength_toList, hsize, hstop, hoffset,
      String.append_assoc, front, start] using hfrom

/-- Quoted closing delimiters, and an apostrophe between double quotes. -/
theorem scan_expression_closers :
    scan Grammar.standard.rawEnd?
        ("a" ++ "\x7b\x7b " ++ "'\x7d\x7d' == \"it's %\x7d\"" ++ " \x7d\x7d" ++ "b")
      = .ok [.text "a", .output " '\x7d\x7d' == \"it's %\x7d\" " 3 ⟨1, 24⟩, .text "b"] ∧
    scan Grammar.standard.rawEnd?
        ("a" ++ "\x7b% " ++ "if" ++ " " ++ "'\x7d\x7d' == \"it's %\x7d\"" ++ " %\x7d" ++ "b")
      = .ok [.text "a", .tag "if" " '\x7d\x7d' == \"it's %\x7d\" " 6 ⟨1, 27⟩, .text "b"] := by
  have hlex : Token.tokenize "'\x7d\x7d' == \"it's %\x7d\"" = .ok [⟨.str "\x7d\x7d", ⟨0, 4⟩⟩,
      ⟨.symbol .eq, ⟨5, 7⟩⟩, ⟨.str "it's %\x7d", ⟨8, 17⟩⟩, ⟨.eof, ⟨17, 17⟩⟩] := by cbv
  have hstrings : ∀ s, .str s ∈ [TokenKind.str "\x7d\x7d", .symbol .eq, .str "it's %\x7d", .eof] →
      Clear s.toList := by
    intro s hs d
    simp only [List.mem_cons, TokenKind.str.injEq, reduceCtorEq, List.not_mem_nil, false_or,
      or_false] at hs
    rcases hs with rfl | rfl <;> cases d <;> decide
  have hbefore : Clear "a".toList := by intro d; cases d <;> decide
  have h := scan_expression (g := Grammar.standard) hbefore (by decide) hlex hstrings "b"
  refine ⟨h.1.trans (by cbv), (h.2 "if" ⟨by decide, by simp; decide⟩ (by cbv)).trans (by cbv)⟩

end Piece

end Stencil
