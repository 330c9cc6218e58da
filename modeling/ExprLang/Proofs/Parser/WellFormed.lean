import ExprLang.Proofs.Lexer.Unfold
import ExprLang.Proofs.Parser.Print

/-! The trees that the grammar can produce. All the words that such a tree is written with are
words that the lexer can read. -/

namespace ExprLang

mutual

/-- The names and the numbers of the tree are tokens, and no list in it is empty where the grammar
asks for an item. -/
def Node.WellFormed : Node → Prop
  | .null => True
  | .boolean _ => True
  | .integer t => (Token.integer t).Valid
  | .floating t => (Token.floating t).Valid
  | .text _ => True
  | .name n => (Token.name n).Valid
  | .path base steps => base.WellFormed ∧ steps ≠ [] ∧ WellFormedSteps steps
  | .call ns n calls =>
    (ns.isEmpty = false → (Token.name ns).Valid) ∧ (Token.name n).Valid ∧ calls ≠ [] ∧
      WellFormedCalls calls
  | .lambda params body calls =>
    (∀ p ∈ params, (Token.name p).Valid) ∧ body.WellFormed ∧ WellFormedCalls calls
  | .unary _ a => a.WellFormed
  | .binary _ a b => a.WellFormed ∧ b.WellFormed
  | .choice c a b => c.WellFormed ∧ a.WellFormed ∧ b.WellFormed
  | .assign a b => a.WellFormed ∧ b.WellFormed
  | .sequence a b => a.WellFormed ∧ b.WellFormed
  | .list items => WellFormedAll items
  | .set items => WellFormedAll items
  | .map entries => entries ≠ [] ∧ WellFormedEntries entries
  | .plain _ => False
  | .template _ => False
  | .deferred _ => False
  | .dynamic _ => False

def WellFormedAll : List Node → Prop
  | [] => True
  | n :: ns => n.WellFormed ∧ WellFormedAll ns

def WellFormedCalls : List (List Node) → Prop
  | [] => True
  | c :: cs => WellFormedAll c ∧ WellFormedCalls cs

def WellFormedEntries : List (Node × Node) → Prop
  | [] => True
  | (k, v) :: es => k.WellFormed ∧ v.WellFormed ∧ WellFormedEntries es

def WellFormedSteps : List Step → Prop
  | [] => True
  | s :: ss => WellFormedStep s ∧ WellFormedSteps ss

def WellFormedStep : Step → Prop
  | .mk s args => WellFormedSelector s ∧ WellFormedArgs args

def WellFormedSelector : Selector → Prop
  | .field n => (Token.name n).Valid
  | .index n => n.WellFormed

def WellFormedArgs : Option (List Node) → Prop
  | none => True
  | some ns => WellFormedAll ns

end

/-! ## The nodes of a tree -/

mutual

/-- Every node of a well-formed tree is a well-formed tree. -/
theorem Node.wellFormed_parts : (n : Node) → n.WellFormed → ∀ p ∈ n.parts, p.WellFormed
  | .null, h => List.forall_mem_singleton.mpr h
  | .boolean _, h => List.forall_mem_singleton.mpr h
  | .integer _, h => List.forall_mem_singleton.mpr h
  | .floating _, h => List.forall_mem_singleton.mpr h
  | .text _, h => List.forall_mem_singleton.mpr h
  | .name _, h => List.forall_mem_singleton.mpr h
  | .path base steps, h =>
    List.forall_mem_cons.mpr ⟨h, List.forall_mem_append.mpr
      ⟨base.wellFormed_parts h.1, wellFormed_partsOfSteps steps h.2.2⟩⟩
  | .call _ _ calls, h =>
    List.forall_mem_cons.mpr ⟨h, wellFormed_partsOfCalls calls h.2.2.2⟩
  | .lambda _ body calls, h =>
    List.forall_mem_cons.mpr ⟨h, List.forall_mem_append.mpr
      ⟨body.wellFormed_parts h.2.1, wellFormed_partsOfCalls calls h.2.2⟩⟩
  | .unary _ a, h => List.forall_mem_cons.mpr ⟨h, a.wellFormed_parts h⟩
  | .binary _ a b, h =>
    List.forall_mem_cons.mpr ⟨h, List.forall_mem_append.mpr
      ⟨a.wellFormed_parts h.1, b.wellFormed_parts h.2⟩⟩
  | .choice c a b, h =>
    List.forall_mem_cons.mpr ⟨h, List.forall_mem_append.mpr
      ⟨List.forall_mem_append.mpr ⟨c.wellFormed_parts h.1, a.wellFormed_parts h.2.1⟩,
        b.wellFormed_parts h.2.2⟩⟩
  | .assign a b, h =>
    List.forall_mem_cons.mpr ⟨h, List.forall_mem_append.mpr
      ⟨a.wellFormed_parts h.1, b.wellFormed_parts h.2⟩⟩
  | .sequence a b, h =>
    List.forall_mem_cons.mpr ⟨h, List.forall_mem_append.mpr
      ⟨a.wellFormed_parts h.1, b.wellFormed_parts h.2⟩⟩
  | .list items, h => List.forall_mem_cons.mpr ⟨h, wellFormed_partsOfAll items h⟩
  | .set items, h => List.forall_mem_cons.mpr ⟨h, wellFormed_partsOfAll items h⟩
  | .map entries, h => List.forall_mem_cons.mpr ⟨h, wellFormed_partsOfEntries entries h.2⟩
  | .plain _, h => h.elim
  | .template _, h => h.elim
  | .deferred _, h => h.elim
  | .dynamic _, h => h.elim

theorem wellFormed_partsOfAll : (ns : List Node) → WellFormedAll ns →
    ∀ p ∈ partsOfAll ns, p.WellFormed
  | [], _ => nofun
  | n :: ns, h => List.forall_mem_append.mpr ⟨n.wellFormed_parts h.1, wellFormed_partsOfAll ns h.2⟩

theorem wellFormed_partsOfCalls : (cs : List (List Node)) → WellFormedCalls cs →
    ∀ p ∈ partsOfCalls cs, p.WellFormed
  | [], _ => nofun
  | c :: cs, h =>
    List.forall_mem_append.mpr ⟨wellFormed_partsOfAll c h.1, wellFormed_partsOfCalls cs h.2⟩

theorem wellFormed_partsOfEntries : (es : List (Node × Node)) → WellFormedEntries es →
    ∀ p ∈ partsOfEntries es, p.WellFormed
  | [], _ => nofun
  | (k, v) :: es, h => List.forall_mem_append.mpr
    ⟨List.forall_mem_append.mpr ⟨k.wellFormed_parts h.1, v.wellFormed_parts h.2.1⟩,
      wellFormed_partsOfEntries es h.2.2⟩

theorem wellFormed_partsOfSteps : (ss : List Step) → WellFormedSteps ss →
    ∀ p ∈ partsOfSteps ss, p.WellFormed
  | [], _ => nofun
  | s :: ss, h =>
    List.forall_mem_append.mpr ⟨wellFormed_partsOfStep s h.1, wellFormed_partsOfSteps ss h.2⟩

theorem wellFormed_partsOfStep : (s : Step) → WellFormedStep s → ∀ p ∈ partsOfStep s, p.WellFormed
  | .mk s args, h =>
    List.forall_mem_append.mpr ⟨wellFormed_partsOfSelector s h.1, wellFormed_partsOfArgs args h.2⟩

theorem wellFormed_partsOfSelector : (s : Selector) → WellFormedSelector s →
    ∀ p ∈ partsOfSelector s, p.WellFormed
  | .field _, _ => nofun
  | .index n, h => n.wellFormed_parts h

theorem wellFormed_partsOfArgs : (args : Option (List Node)) → WellFormedArgs args →
    ∀ p ∈ partsOfArgs args, p.WellFormed
  | none, _ => nofun
  | some ns, h => wellFormed_partsOfAll ns h

end

/-! ## The words of a tree -/

namespace Word

/-- The lexer can read the word. -/
def Valid : Word → Prop
  | token t => t.Valid
  | prefixed ns name => (Token.name ns).Valid ∧ (Token.name name).Valid

def AllValid (ws : List Word) : Prop := ∀ w ∈ ws, w.Valid

variable {w : Word} {ws ws' : List Word}

theorem AllValid.nil : AllValid [] := fun _ hw => nomatch hw

theorem AllValid.cons (h : w.Valid) (hs : AllValid ws) : AllValid (w :: ws) :=
  List.forall_mem_cons.mpr ⟨h, hs⟩

theorem AllValid.append (h : AllValid ws) (h' : AllValid ws') : AllValid (ws ++ ws') :=
  List.forall_mem_append.mpr ⟨h, h'⟩

theorem AllValid.symbol (s : Symbol) (hs : AllValid ws) : AllValid (Word.symbol s :: ws) :=
  hs.cons (Lexer.symbol_valid s)

theorem AllValid.keyword (k : Keyword) (hs : AllValid ws) : AllValid (Word.keyword k :: ws) :=
  hs.cons (Lexer.keyword_valid k)

theorem AllValid.enclose (h : AllValid ws) : AllValid (enclose ws) :=
  .symbol .lParen (h.append (.symbol .rParen .nil))

theorem AllValid.fit {n : Node} (place : Rung) (h : AllValid ws) : AllValid (fit place n ws) := by
  unfold Word.fit
  split
  · exact h.enclose
  · exact h

theorem moreParams_valid {ps : List String} (h : ∀ p ∈ ps, (Token.name p).Valid) :
    AllValid (moreParams ps) := by
  induction ps with
  | nil => exact .nil
  | cons p ps ih =>
    obtain ⟨hp, hps⟩ := List.forall_mem_cons.mp h
    exact .symbol .comma ((ih hps).cons hp)

theorem header_valid {ps : List String} (h : ∀ p ∈ ps, (Token.name p).Valid) :
    AllValid (header ps) := by
  have harrow : AllValid [Word.symbol .arrow] := .symbol .arrow .nil
  match ps, h with
  | [], _ => exact .symbol .lParen (.symbol .rParen harrow)
  | [p], h => exact harrow.cons (h p List.mem_cons_self)
  | p :: q :: ps, h =>
    obtain ⟨hp, hps⟩ := List.forall_mem_cons.mp h
    have hmore : AllValid (moreParams (q :: ps) ++ [Word.symbol .rParen, Word.symbol .arrow]) :=
      (moreParams_valid hps).append (.symbol .rParen harrow)
    exact .symbol .lParen (hmore.cons hp)

end Word

theorem UnaryOp.word_valid (op : UnaryOp) : op.word.Valid := by
  cases op with
  | neg => exact Lexer.symbol_valid _
  | not => exact Lexer.symbol_valid _
  | empty => exact Lexer.keyword_valid _

theorem BinaryOp.word_valid (op : BinaryOp) : op.word.Valid := by
  cases op <;> exact Lexer.symbol_valid _

open Word

mutual

theorem Node.words_valid : (n : Node) → n.WellFormed → AllValid n.words
  | .null, _ => .keyword .null .nil
  | .boolean b, _ => .keyword _ .nil
  | .integer t, h => AllValid.nil.cons h
  | .floating t, h => AllValid.nil.cons h
  | .text t, _ => AllValid.nil.cons (Lexer.text_valid t)
  | .name n, h => AllValid.nil.cons h
  | .path base steps, h => (base.words_valid h.1).fit _ |>.append (wordsOfSteps_valid steps h.2.2)
  | .call ns n calls, h => by
    have hcalls := wordsOfCalls_valid calls h.2.2.2
    rw [Node.words]
    split
    · exact hcalls.cons h.2.1
    · rename_i hns
      exact hcalls.cons ⟨h.1 (Bool.eq_false_iff.mpr hns), h.2.1⟩
  | .lambda params body [], h => (header_valid h.1).append ((body.words_valid h.2.1).fit _)
  | .lambda params body (c :: cs), h =>
    ((header_valid h.1).append ((body.words_valid h.2.1).fit _)).enclose.append
      (wordsOfCalls_valid (c :: cs) h.2.2)
  | .unary op a, h => ((a.words_valid h).fit _).cons op.word_valid
  | .binary op a b, h =>
    ((a.words_valid h.1).fit _).append (((b.words_valid h.2).fit _).cons op.word_valid)
  | .choice c a b, h =>
    ((c.words_valid h.1).fit _).append
      (.symbol _ (((a.words_valid h.2.1).fit _).append
        (.symbol _ ((b.words_valid h.2.2).fit _))))
  | .assign a b, h =>
    ((a.words_valid h.1).fit _).append (.symbol _ ((b.words_valid h.2).fit _))
  | .sequence a b, h => by
    have hb : AllValid (Word.symbol .semi :: fit .assignment b b.words) :=
      .symbol .semi ((b.words_valid h.2).fit .assignment)
    have ha := a.words_valid h.1
    rw [Node.words]
    split
    · exact ha.enclose.append hb
    · exact ha.append hb
  | .list items, h => .symbol _ ((wordsOfAll_valid items h).append (.symbol _ .nil))
  | .set items, h => .symbol _ ((wordsOfAll_valid items h).append (.symbol _ .nil))
  | .map entries, h => .symbol _ ((wordsOfEntries_valid entries h.2).append (.symbol _ .nil))
  | .plain _, h => h.elim
  | .template _, h => h.elim
  | .deferred _, h => h.elim
  | .dynamic _, h => h.elim

theorem wordsOfAll_valid : (ns : List Node) → WellFormedAll ns → AllValid (wordsOfAll ns)
  | [], _ => .nil
  | n :: ns, h => (n.words_valid h.1).append (wordsOfMore_valid ns h.2)

theorem wordsOfMore_valid : (ns : List Node) → WellFormedAll ns → AllValid (wordsOfMore ns)
  | [], _ => .nil
  | n :: ns, h => .symbol _ ((n.words_valid h.1).append (wordsOfMore_valid ns h.2))

theorem wordsOfCalls_valid :
    (cs : List (List Node)) → WellFormedCalls cs → AllValid (wordsOfCalls cs)
  | [], _ => .nil
  | c :: cs, h => (wordsOfAll_valid c h.1).enclose.append (wordsOfCalls_valid cs h.2)

theorem wordsOfEntries_valid :
    (es : List (Node × Node)) → WellFormedEntries es → AllValid (wordsOfEntries es)
  | [], _ => .nil
  | (k, v) :: es, h =>
    (k.words_valid h.1).append
      (.symbol _ ((v.words_valid h.2.1).append (wordsOfMoreEntries_valid es h.2.2)))

theorem wordsOfMoreEntries_valid :
    (es : List (Node × Node)) → WellFormedEntries es → AllValid (wordsOfMoreEntries es)
  | [], _ => .nil
  | (k, v) :: es, h =>
    .symbol _ ((k.words_valid h.1).append
      (.symbol _ ((v.words_valid h.2.1).append (wordsOfMoreEntries_valid es h.2.2))))

theorem wordsOfSteps_valid : (ss : List Step) → WellFormedSteps ss → AllValid (wordsOfSteps ss)
  | [], _ => .nil
  | s :: ss, h => (wordsOfStep_valid s h.1).append (wordsOfSteps_valid ss h.2)

theorem wordsOfStep_valid : (s : Step) → WellFormedStep s → AllValid (wordsOfStep s)
  | .mk s args, h => (wordsOfSelector_valid s h.1).append (wordsOfArgs_valid args h.2)

theorem wordsOfSelector_valid :
    (s : Selector) → WellFormedSelector s → AllValid (wordsOfSelector s)
  | .field _, h => .symbol _ (AllValid.nil.cons h)
  | .index n, h => .symbol _ ((n.words_valid h).append (.symbol _ .nil))

theorem wordsOfArgs_valid :
    (args : Option (List Node)) → WellFormedArgs args → AllValid (wordsOfArgs args)
  | none, _ => .nil
  | some ns, h => (wordsOfAll_valid ns h).enclose

end

end ExprLang

/-! ## Words at their places

Words at their places in a text. The text of valid words has the tokens of the words. -/

namespace ExprLang

namespace Word

/-- Where a word ends that starts at an offset. -/
def stop (o : Nat) : Word → Nat
  | token t => o + Lexer.byteLength t.written.toList
  | prefixed ns name => o + Lexer.byteLength ns.toList + 1 + Lexer.byteLength name.toList

/-- The tokens of a word that starts at an offset. -/
def lexemes (o : Nat) : Word → List Lexeme
  | token t => [⟨t, ⟨o, o + Lexer.byteLength t.written.toList⟩⟩]
  | prefixed ns name =>
    let colon := o + Lexer.byteLength ns.toList
    [⟨.name ns, ⟨o, colon⟩⟩, ⟨.symbol .colon, ⟨colon, colon + 1⟩⟩,
      ⟨.name name, ⟨colon + 1, colon + 1 + Lexer.byteLength name.toList⟩⟩]

/-- The tokens of words with a space between any two. -/
def placed (o : Nat) : List Word → List Lexeme
  | [] => []
  | w :: ws => w.lexemes o ++ placed (w.stop o + 1) ws

/-- Where the next word starts. -/
def after (o : Nat) : List Word → Nat
  | [] => o
  | w :: ws => after (w.stop o + 1) ws

/-- The text of words. -/
def textOf (ws : List Word) : List Char := (String.intercalate " " (ws.map written)).toList

theorem after_append (o : Nat) (ws ws' : List Word) :
    after o (ws ++ ws') = after (after o ws) ws' := by
  induction ws generalizing o with
  | nil => rfl
  | cons w ws ih => exact ih _

theorem textOf_singleton (w : Word) : textOf [w] = w.written.toList := by
  rw [textOf, List.map_singleton, String.intercalate_singleton]

theorem textOf_cons_cons (w v : Word) (ws : List Word) :
    textOf (w :: v :: ws) = w.written.toList ++ ' ' :: textOf (v :: ws) := by
  simp [textOf, String.intercalate_cons_cons]

end Word

namespace Lexer

open Word

variable {o : Nat} {w : Word} {ws : List Word} {cs rest : List Char}

theorem lexFrom_space (o : Nat) (cs : List Char) : lexFrom o (' ' :: cs) = lexFrom (o + 1) cs := by
  have hnext := next_space o cs
  cases h : next (o + 1) cs with
  | finished stop => rw [lexFrom_finished h, lexFrom_finished (hnext.trans h)]
  | refused e => rw [lexFrom_refused h, lexFrom_refused (hnext.trans h)]
  | found l rest => rw [lexFrom_found h, lexFrom_found (hnext.trans h)]

/-- A word before a space or the end. -/
theorem lexFrom_word {ls : List Lexeme} (h : w.Valid) (hr : Apart rest)
    (hls : lexFrom (w.stop o) rest = .ok ls) :
    lexFrom o (w.written.toList ++ rest) = .ok (w.lexemes o ++ ls) := by
  cases w with
  | token t =>
    rw [Word.written, lexFrom_found (next_written h hr o)]
    dsimp only [Word.stop] at hls
    rw [hls]
    rfl
  | prefixed ns name =>
    have htext : (ns ++ ":" ++ name).toList ++ rest =
        ns.toList ++ ':' :: (name.toList ++ rest) := by simp
    have hname : lexFrom (o + byteLength ns.toList + 1) (name.toList ++ rest) =
        .ok (⟨.name name, ⟨o + byteLength ns.toList + 1, (prefixed ns name).stop o⟩⟩ :: ls) := by
      rw [show name.toList = (Token.name name).written.toList from rfl,
        lexFrom_found (next_written h.2 hr _)]
      dsimp only [Word.stop] at hls
      rw [show (Token.name name).written.toList = name.toList from rfl, hls]
      rfl
    rw [Word.written, htext, lexFrom_found (next_name h.1 _ o)]
    dsimp only
    rw [lexFrom_found (next_colon _ _)]
    dsimp only
    rw [hname]
    rfl

/-- The text of valid words has the tokens of the words. -/
theorem lexFrom_textOf (h : AllValid ws) (o : Nat) : lexFrom o (textOf ws) = .ok (placed o ws) := by
  induction ws generalizing o with
  | nil => exact lexFrom_finished (rfl : next o [] = .finished o)
  | cons w ws ih =>
    obtain ⟨hw, hws⟩ := List.forall_mem_cons.mp h
    cases ws with
    | nil =>
      have hend : lexFrom (w.stop o) [] = .ok [] :=
        lexFrom_finished (rfl : next (w.stop o) [] = .finished (w.stop o))
      rw [textOf_singleton, ← List.append_nil w.written.toList,
        lexFrom_word hw (.inl rfl) hend]
      rfl
    | cons v ws =>
      rw [textOf_cons_cons]
      refine lexFrom_word hw (.inr ⟨_, rfl⟩) ?_
      rw [lexFrom_space, ih hws]

end Lexer

/-- The tokens of a tree that is printed. -/
theorem tokenize_print {n : Node} (h : n.WellFormed) :
    tokenize n.print = .ok (Word.placed 0 n.words) :=
  Lexer.lexFrom_textOf (n.words_valid h) 0

end ExprLang
