import Xv6.Sh.Recognise

/-!
# The strings of a parsed line

`nulterminate` overwrites the character after every word of the tree.  That
character belongs to no word, so the words are left whole and each pointer of
the tree becomes a string of its own.  With this the result of `parsecmd` is a
tree of strings, and it is the tree of the line's derivation.
-/

namespace Xv6
namespace Sh

open Faulting

/-! ## The buffer after `nulterminate` -/

/-- Store a null after each of some words. -/
def terminate (buffer : Text) (words : List Span) : Text :=
  words.foldl (fun buffer word => putNul buffer word.stop) buffer

theorem nulterminate_eq (buffer : Text) (cmd : Cmd Span) :
    nulterminate buffer cmd = terminate buffer cmd.words := by
  induction cmd generalizing buffer with
  | exec argv => rfl
  | redir cmd file mode fd ih =>
    rw [nulterminate, ih, Cmd.words, terminate, terminate, List.foldl_append]
    rfl
  | pipe left right ihLeft ihRight =>
    rw [nulterminate, ihLeft, ihRight, Cmd.words, terminate, terminate, terminate,
      List.foldl_append]
  | list left right ihLeft ihRight =>
    rw [nulterminate, ihLeft, ihRight, Cmd.words, terminate, terminate, terminate,
      List.foldl_append]
  | back cmd ih => exact ih buffer

theorem terminate_cons (buffer : Text) (word : Span) (words : List Span) :
    terminate buffer (word :: words) = terminate (putNul buffer word.stop) words := rfl

theorem length_putNul (buffer pointer : Text) :
    (putNul buffer pointer).length = buffer.length :=
  List.length_set

theorem length_terminate (buffer : Text) (words : List Span) :
    (terminate buffer words).length = buffer.length := by
  induction words generalizing buffer with
  | nil => rfl
  | cons word words ih => rw [terminate_cons, ih, length_putNul]

/-- A place that no null is stored at keeps its character. -/
theorem getElem?_terminate_of_ne
    (buffer : Text)
    (words : List Span)
    (place : Nat)
    (apart : ∀ word ∈ words, place ≠ buffer.length - 1 - word.stop.length) :
    (terminate buffer words)[place]? = buffer[place]? := by
  induction words generalizing buffer with
  | nil => rfl
  | cons word words ih =>
    rw [terminate_cons, ih]
    · rw [putNul, List.getElem?_set_ne (apart word List.mem_cons_self).symm]
    · intro other member
      rw [length_putNul]
      exact apart other (List.mem_cons_of_mem _ member)

/-- A null that is stored stays. -/
theorem getElem?_terminate_of_mem
    (buffer : Text)
    (words : List Span)
    (place : Nat)
    (inside : place < buffer.length)
    (stored : buffer[place]? = some 0 ∨
      ∃ word ∈ words, place = buffer.length - 1 - word.stop.length) :
    (terminate buffer words)[place]? = some 0 := by
  induction words generalizing buffer with
  | nil =>
    rcases stored with stored | ⟨_, member, _⟩
    · exact stored
    · exact absurd member List.not_mem_nil
  | cons word words ih =>
    rw [terminate_cons]
    refine ih _ ((length_putNul _ _).symm ▸ inside) ?_
    rw [length_putNul]
    by_cases here : place = buffer.length - 1 - word.stop.length
    · left
      rw [putNul, ← here, List.getElem?_set_self inside]
    · rcases stored with stored | ⟨other, member, equal⟩
      · left
        rw [putNul, List.getElem?_set_ne (Ne.symm here), stored]
      · rcases List.mem_cons.mp member with rfl | member
        · exact absurd equal here
        · exact .inr ⟨other, member, equal⟩

/-! ## Words keep their characters -/

theorem getElem?_of_suffix {pointer line : Text}
    (suffix : pointer <:+ line)
    (offset : Nat) :
    (line)[line.length - pointer.length + offset]? = pointer[offset]? := by
  obtain ⟨before, rfl⟩ := suffix
  rw [List.length_append, Nat.add_sub_cancel, List.getElem?_append_right (Nat.le_add_right _ _),
    Nat.add_sub_cancel_left]

theorem IsWord.stop_suffix (word : IsWord line span) : span.stop <:+ line := by
  have inner : span.stop <:+ span.start := ⟨span.text, word.joined.symm⟩
  exact inner.trans word.start

/-- The character after a word is not one of another word's. -/
theorem IsWord.stop_ne
    (word : IsWord line span)
    (other : IsWord line second)
    (offset : Nat)
    (inside : offset < span.text.length) :
    line.length - span.start.length + offset ≠ line.length - second.stop.length := by
  intro equal
  have char : (line)[line.length - span.start.length + offset]? = some (span.text[offset]) := by
    rw [getElem?_of_suffix word.start, word.joined, List.getElem?_append_left inside,
      List.getElem?_eq_getElem inside]
  have head : (line)[line.length - second.stop.length]? = second.stop.head? := by
    rw [List.head?_eq_getElem?]
    exact getElem?_of_suffix other.stop_suffix 0
  have stopped := other.maximal _ (head.symm.trans (equal ▸ char))
  rw [word.plain _ (List.getElem_mem inside)] at stopped
  exact Bool.noConfusion stopped

theorem takeWhile_of_getElem? {text tail : Text}
    (clean : 0 ∉ text)
    (chars : ∀ offset, offset < text.length → tail[offset]? = text[offset]?)
    (ended : tail[text.length]? = some 0) :
    tail.takeWhile (· != 0) = text := by
  induction text generalizing tail with
  | nil =>
    cases tail with
    | nil => rfl
    | cons c tail =>
      obtain rfl : c = 0 := Option.some.inj ended
      rfl
  | cons d text ih =>
    cases tail with
    | nil => exact nomatch ended
    | cons c tail =>
      obtain rfl : c = d := Option.some.inj (chars 0 (Nat.succ_pos _))
      obtain ⟨first, rest⟩ := not_or.mp (mt List.mem_cons.mpr clean)
      rw [List.takeWhile_cons_of_pos (by simpa using Ne.symm first)]
      rw [ih rest (fun offset inside => chars (offset + 1) (Nat.succ_lt_succ inside)) ended]

/-- With a null after each of some words, the pointer to one is its string. -/
theorem stringAt_terminate
    (line : Line)
    (spans : List Span)
    (words : ∀ word ∈ spans, IsWord line.text word)
    (member : span ∈ spans) :
    stringAt (terminate (line.text ++ [0]) spans) span = span.text := by
  have word := words span member
  have lengths : (line.text ++ [0]).length - 1 = line.text.length := by simp
  have within := word.start.length_le
  have joined : span.start.length = span.text.length + span.stop.length := by
    rw [← List.length_append, ← word.joined]
  have clean : 0 ∉ span.text := by
    intro null
    have inner : (0 : UInt8) ∈ span.start := by
      rw [word.joined]
      exact List.mem_append_left _ null
    exact line.terminated (word.start.subset inner)
  rw [stringAt, length_terminate, lengths]
  refine takeWhile_of_getElem? clean ?_ ?_
  · intro offset inside
    rw [List.getElem?_drop, getElem?_terminate_of_ne]
    · rw [List.getElem?_append_left (by omega), getElem?_of_suffix word.start]
      conv_lhs => rw [word.joined]
      rw [List.getElem?_append_left inside]
    · intro other among
      rw [lengths]
      exact word.stop_ne (words other among) offset inside
  · rw [List.getElem?_drop]
    refine getElem?_terminate_of_mem _ _ _ ?_ (.inr ⟨span, member, ?_⟩)
    · rw [List.length_append, List.length_singleton]
      omega
    · rw [lengths]
      omega

theorem map_eq_map_of_words {first second : ω → ω'}
    (cmd : Cmd ω)
    (agree : ∀ word ∈ cmd.words, first word = second word) :
    cmd.map first = cmd.map second := by
  induction cmd with
  | exec argv => exact congrArg Cmd.exec (List.map_congr_left agree)
  | redir cmd file mode fd ih =>
    rw [Cmd.map, Cmd.map, agree file (List.mem_append_right _ (List.mem_singleton_self _)),
      ih (fun word member => agree word (List.mem_append_left _ member))]
  | pipe left right ihLeft ihRight =>
    rw [Cmd.map, Cmd.map, ihLeft (fun word member => agree word (List.mem_append_left _ member)),
      ihRight (fun word member => agree word (List.mem_append_right _ member))]
  | list left right ihLeft ihRight =>
    rw [Cmd.map, Cmd.map, ihLeft (fun word member => agree word (List.mem_append_left _ member)),
      ihRight (fun word member => agree word (List.mem_append_right _ member))]
  | back cmd ih => exact congrArg Cmd.back (ih agree)

/-! ## The result of parsing -/

/-- The tree that `parsecmd` returns, with the strings its pointers denote in
the buffer. -/
def parsed (line : Line) : Except Stop (Cmd Text) :=
  match parsecmd line with
  | .ok (cmd, buffer) => .ok (cmd.map (stringAt buffer))
  | .error reason => .error reason

theorem parseAll_sound (line : Line) :
    Run.Spec (parseAll line) line.text
      (fun cmd _ => Derives .line (tokens line.text) (cmd.map Span.text) ∧
        ∀ word ∈ cmd.words, IsWord line.text word)
      (fun reason => ∃ text, reason = .panic text) := by
  refine .bind (((procedures_sound _).1 line.text line.terminated).mono ?_ ?_)
  · rintro cmd rest ⟨⟨ts, reads, derives⟩, words⟩
    refine .bind_ok (peek_eq (reads.clean line.terminated) [] (by simp)) ?_
    refine .get_bind ?_
    by_cases left : skipSpace rest = []
    · have ended := tokens_skipSpace rest
      rw [left, tokens_nil] at ended
      have all := reads.tokens_eq
      rw [← ended, List.append_nil] at all
      rw [if_neg (not_not.mpr left)]
      refine .pure ⟨?_, words⟩
      rw [all]
      exact derives
    · rw [if_pos left]
      exact .fault ⟨_, rfl⟩
  · intro reason few
    cases reason with
    | panic text => exact ⟨text, rfl⟩
    | fuel => exact absurd (few rfl) (lt_irrefl _)

theorem parseAll_complete
    (line : Line)
    (derives : Derives .line (tokens line.text) tree) :
    Run.Spec (parseAll line) line.text (fun cmd _ => cmd.map Span.text = tree)
      (fun _ => False) := by
  have shape : tokens line.text = tokens line.text ++ [] := (List.append_nil _).symm
  refine .bind ((procedure_complete derives line.terminated shape (.inl rfl)
    (le_refl _)).mono ?_ (fun _ => id))
  rintro cmd rest ⟨reads, mapped⟩
  refine .bind_ok (peek_eq (reads.clean line.terminated) [] (by simp)) ?_
  refine .get_bind ?_
  rw [if_neg (not_not.mpr (skipSpace_of_tokens_nil (reads.rest_tokens shape)))]
  exact .pure mapped

/-- The strings of a tree whose pointers are words of the line. -/
theorem parsed_of_ok (returned : parseAll line line.text = .ok (cmd, rest)) :
    parsed line = .ok (cmd.map Span.text) := by
  have words := ((parseAll_sound line).of_ok returned).2
  rw [parsed, parsecmd, returned]
  refine congrArg Except.ok (map_eq_map_of_words cmd fun word member => ?_)
  rw [nulterminate_eq]
  exact stringAt_terminate line cmd.words words member

theorem parsed_iff (line : Line) (tree : Cmd Text) :
    parsed line = .ok tree ↔ Derives .line (tokens line.text) tree := by
  cases returned : parseAll line line.text with
  | ok pair =>
    obtain ⟨cmd, rest⟩ := pair
    rw [parsed_of_ok returned]
    constructor
    · intro equal
      obtain rfl := Except.ok.inj equal
      exact ((parseAll_sound line).of_ok returned).1
    · intro derives
      rw [(parseAll_complete line derives).of_ok returned]
  | error reason =>
    refine iff_of_false ?_ fun derives => (parseAll_complete line derives).of_error returned
    rw [parsed, parsecmd, returned]
    exact nofun

/-- A line parses to a tree exactly if its token sequence derives from the
grammar with that tree; on every line the parser ends, with a tree or in
`panic`. -/
theorem parsed_eq_ok_iff_derives (line : Line) :
    (∀ tree, parsed line = .ok tree ↔ Derives .line (tokens line.text) tree) ∧
      ((∃ tree, parsed line = .ok tree) ∨ ∃ text, parsed line = .error (.panic text)) := by
  refine ⟨parsed_iff line, ?_⟩
  cases returned : parseAll line line.text with
  | ok pair => exact .inl ⟨_, parsed_of_ok returned⟩
  | error reason =>
    obtain ⟨text, rfl⟩ := (parseAll_sound line).of_error returned
    refine .inr ⟨text, ?_⟩
    rw [parsed, parsecmd, returned]

/-- The tree of `a<f|(b;c>>g)&`. -/
example :
    parsed ⟨[97, 60, 102, 124, 40, 98, 59, 99, 62, 62, 103, 41, 38], by decide⟩ =
      .ok (.back (.pipe (.redir (.exec [[97]]) [102] O_RDONLY 0)
        (.list (.exec [[98]]) (.redir (.exec [[99]]) [103] (O_WRONLY ||| O_CREATE) 1)))) := by
  decide +kernel

/-! ## The words are apart -/

theorem ne_nil_of_mem_tokens (member : .word text ∈ tokens s) :
    text ≠ [] := by
  induction s using tokens.induct with
  | case1 => simp [tokens_nil] at member
  | case2 c rest space ih =>
    rw [tokens_cons, if_pos space] at member
    exact ih member
  | case3 c rest space plain ih =>
    rw [tokens_cons, if_neg space, if_pos plain] at member
    rcases List.mem_cons.mp member with equal | member
    · rw [Token.word.inj equal]
      exact List.cons_ne_nil _ _
    · exact ih member
  | case4 c rest space plain double ih =>
    rw [tokens_cons, if_neg space, if_neg plain, if_pos double] at member
    exact ih ((List.mem_cons.mp member).resolve_left nofun)
  | case5 c rest space plain double ih =>
    rw [tokens_cons, if_neg space, if_neg plain, if_neg double] at member
    exact ih ((List.mem_cons.mp member).resolve_left nofun)

theorem Redirs.file_mem (derives : Redirs ts redirs) :
    ∀ file ∈ redirs.map Redirection.file, Token.word file ∈ ts := by
  induction derives with
  | nil => exact nofun
  | cons first _ ih =>
    intro file member
    rcases List.mem_cons.mp member with rfl | member
    · cases first <;> simp
    · exact List.mem_append_right _ (ih file member)

theorem Args.mem (args : Args ts words redirs) :
    ∀ text ∈ words ++ redirs.map Redirection.file, Token.word text ∈ ts := by
  induction args with
  | nil => exact nofun
  | cons word first _ ih =>
    intro text member
    have files := first.file_mem text
    have others := ih text
    simp only [List.map_append, List.cons_append, List.mem_cons, List.mem_append] at *
    tauto

/-- The words of a tree are tokens. -/
theorem Derives.mem (derives : Derives category ts tree) :
    ∀ text ∈ tree.words, Token.word text ∈ ts := by
  induction derives with
  | line _ backs ih =>
    intro text member
    rw [words_back] at member
    exact List.mem_append_left _ (ih text member)
  | list _ backs _ ihFirst ihRest =>
    intro text member
    rw [Cmd.words, words_back] at member
    rcases List.mem_append.mp member with member | member
    · exact List.mem_append_left _ (List.mem_append_left _ (ihFirst text member))
    · exact List.mem_append_right _ (List.mem_cons_of_mem _ (ihRest text member))
  | single _ ih => exact ih
  | pipe _ _ ihFirst ihRest =>
    intro text member
    rcases List.mem_append.mp member with member | member
    · exact List.mem_append_left _ (ihFirst text member)
    · exact List.mem_append_right _ (List.mem_cons_of_mem _ (ihRest text member))
  | block _ after ih =>
    intro text member
    rw [words_wrap] at member
    rcases List.mem_append.mp member with member | member
    · exact List.mem_append_left _ (List.mem_cons_of_mem _ (ih text member))
    · exact List.mem_append_right _ (List.mem_cons_of_mem _ (after.file_mem text member))
  | simple before args _ =>
    intro text member
    have files := before.file_mem text
    have others := args.mem text
    simp only [words_wrap, Cmd.words, List.map_append, List.mem_append] at *
    tauto

theorem words_map {change : ω → ω'} (cmd : Cmd ω) :
    (cmd.map change).words = cmd.words.map change := by
  induction cmd with
  | exec argv => rfl
  | redir cmd file mode fd ih => simp [Cmd.map, Cmd.words, ih]
  | pipe left right ihLeft ihRight => simp [Cmd.map, Cmd.words, ihLeft, ihRight]
  | list left right ihLeft ihRight => simp [Cmd.map, Cmd.words, ihLeft, ihRight]
  | back cmd ih => exact ih

/-- After `nulterminate` each word of the tree is a string of its own; no null stored for
one lies inside or at the start of another; and the words would be the same strings if the
nulls were stored in another order. -/
theorem nulterminate_isolates
    (line : Line)
    (cmd : Cmd Span)
    (buffer : Text)
    (accepted : parsecmd line = .ok (cmd, buffer)) :
    (∀ word ∈ cmd.words, IsWord line.text word ∧ word.text ≠ [] ∧
      stringAt buffer word = word.text) ∧
    (∀ word ∈ cmd.words, ∀ other ∈ cmd.words, ∀ offset < word.text.length,
      line.text.length - word.start.length + offset ≠ line.text.length - other.stop.length) ∧
    ∀ order, List.Perm order cmd.words → ∀ word ∈ cmd.words,
      stringAt (terminate (line.text ++ [0]) order) word = word.text := by
  unfold parsecmd at accepted
  split at accepted
  case h_2 => exact nomatch accepted
  case h_1 tree rest returned =>
    obtain ⟨rfl, rfl⟩ := Prod.mk.inj (Except.ok.inj accepted)
    obtain ⟨derives, words⟩ := (parseAll_sound line).of_ok returned
    have anyOrder : ∀ order, List.Perm order tree.words → ∀ word ∈ tree.words,
        stringAt (terminate (line.text ++ [0]) order) word = word.text := by
      intro order same word member
      exact stringAt_terminate line order (fun other among => words other (same.mem_iff.mp among))
        (same.mem_iff.mpr member)
    refine ⟨fun word member => ⟨words word member, ?_, ?_⟩, ?_, anyOrder⟩
    · refine ne_nil_of_mem_tokens (derives.mem _ ?_)
      rw [words_map]
      exact List.mem_map_of_mem member
    · rw [nulterminate_eq]
      exact anyOrder _ (List.Perm.refl _) word member
    · intro word member other among offset inside
      exact (words word member).stop_ne (words other among) offset inside

/-- The line `a>b`, whose words touch the symbol between them. -/
theorem nulterminate_isolates_touching :
    stringAt [97, 0, 98, 0] ⟨[97, 62, 98], [62, 98]⟩ = [97] :=
  ((nulterminate_isolates ⟨[97, 62, 98], by decide⟩
    (.redir (.exec [⟨[97, 62, 98], [62, 98]⟩]) ⟨[98], []⟩ (O_WRONLY ||| O_CREATE) 1)
    [97, 0, 98, 0] (by decide +kernel)).1 _ (by decide)).2.2

end Sh
end Xv6
