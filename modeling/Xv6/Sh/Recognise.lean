import Xv6.Sh.Grammar

/-!
# The parser recognises the grammar

Soundness goes by induction on the fuel: what a procedure has read derives from
its nonterminal, with the tree it returns, and only a text too long for the
fuel exhausts it.  Completeness goes by induction on the derivation: a
procedure whose text starts with a derivable sequence reads exactly that
sequence, provided that what follows does not continue it.
-/

namespace Xv6
namespace Sh

open Faulting

/-! ## Reading tokens -/

/-- A part of the parser has read a token sequence. -/
structure Reads (ps : Text) (ts : List Token) (rest : Text) : Prop where
  /-- The tokens read come first. -/
  tokens_eq : tokens ps = ts ++ tokens rest
  /-- Every token has a character. -/
  shorter : ts.length + rest.length ≤ ps.length
  /-- The cursor has moved forward. -/
  suffix : rest <:+ ps

theorem Reads.trans
    (first : Reads ps ts middle)
    (second : Reads middle us rest) :
    Reads ps (ts ++ us) rest where
  tokens_eq := by rw [first.tokens_eq, second.tokens_eq, List.append_assoc]
  shorter := by
    have one := first.shorter
    have two := second.shorter
    rw [List.length_append]
    omega
  suffix := second.suffix.trans first.suffix

theorem reads_skipSpace (ps : Text) : Reads ps [] (skipSpace ps) where
  tokens_eq := (tokens_skipSpace ps).symm
  shorter := by simpa using (skipSpace_suffix ps).length_le
  suffix := skipSpace_suffix ps

theorem Starts.reads (starts : Starts ps token rest) :
    Reads ps [token] (skipSpace rest) where
  tokens_eq := by rw [starts.tokens_eq, tokens_skipSpace]; rfl
  shorter := by
    have less := starts.shorter
    have skipped := (skipSpace_suffix rest).length_le
    rw [List.length_singleton]
    omega
  suffix := (skipSpace_suffix rest).trans starts.suffix

theorem Reads.clean
    (reads : Reads ps ts rest)
    (clean : 0 ∉ ps) :
    0 ∉ rest :=
  fun member => clean (reads.suffix.subset member)

/-- What was read is determined by what is left. -/
theorem Reads.rest_tokens
    (reads : Reads ps ts rest)
    (shape : tokens ps = ts ++ after) :
    tokens rest = after :=
  List.append_cancel_left (reads.tokens_eq.symm.trans shape)

/-! ## The words of a tree -/

/-- The words of a tree, in the order of `nulterminate`. -/
def Cmd.words : Cmd ω → List ω
  | .exec argv => argv
  | .redir cmd file _ _ => cmd.words ++ [file]
  | .pipe left right => left.words ++ right.words
  | .list left right => left.words ++ right.words
  | .back cmd => cmd.words

/-- A word of the line: a maximal run of plain characters. -/
structure IsWord (line : Text) (span : Span) : Prop where
  /-- It starts in the line. -/
  start : span.start <:+ line
  /-- Its characters reach up to its end. -/
  joined : span.start = span.text ++ span.stop
  /-- They are plain. -/
  plain : ∀ c ∈ span.text, isPlain c = true
  /-- The next character is not. -/
  maximal : ∀ c, span.stop.head? = some c → isPlain c = false

theorem IsWord.mono
    (word : IsWord rest span)
    (suffix : rest <:+ line) :
    IsWord line span :=
  { word with start := word.start.trans suffix }

/-- The span that `gettoken` hands out for a word. -/
theorem Starts.isWord (starts : Starts ps (.word text) rest) :
    Span.text ⟨skipSpace ps, rest⟩ = text ∧ IsWord ps ⟨skipSpace ps, rest⟩ := by
  obtain ⟨joined, plain, maximal⟩ := starts.word text rfl
  have equal : Span.text ⟨skipSpace ps, rest⟩ = text := by
    simp [Span.text, joined]
  refine ⟨equal, skipSpace_suffix ps, ?_, ?_, maximal⟩
  · rw [equal]
    exact joined
  · rw [equal]
    exact plain

/-- `gettoken` reads the next token. -/
theorem gettoken_of_tokens (shape : tokens ps = token :: ts) :
    ∃ span rest, gettoken ps = .ok ((token.code, span), rest) ∧ Reads ps [token] rest ∧
      token.Valid ∧ ∀ text, token = .word text → span.text = text ∧ IsWord ps span := by
  obtain ⟨rest, starts, _⟩ := starts_of_tokens shape
  refine ⟨_, _, gettoken_eq starts, starts.reads, starts.valid, ?_⟩
  rintro text rfl
  exact starts.isWord

/-- Reading a token that `peek` has seen. -/
theorem gettoken_after_peek (shape : tokens ps = token :: ts) :
    ∃ span rest, gettoken (skipSpace ps) = .ok ((token.code, span), rest) ∧
      Reads ps [token] rest ∧ token.Valid ∧
        ∀ text, token = .word text → span.text = text ∧ IsWord ps span := by
  rw [← tokens_skipSpace] at shape
  obtain ⟨span, rest, returned, reads, valid, word⟩ := gettoken_of_tokens shape
  refine ⟨span, rest, returned, (reads_skipSpace ps).trans reads, valid, ?_⟩
  intro text equal
  obtain ⟨textEq, isWord⟩ := word text equal
  exact ⟨textEq, isWord.mono (skipSpace_suffix ps)⟩

/-- Change the file of a redirection. -/
def Redirection.map (change : ω → ω') (redir : Redirection ω) : Redirection ω' :=
  ⟨change redir.file, redir.mode, redir.fd⟩

theorem wrap_append (cmd : Cmd ω) (first second : List (Redirection ω)) :
    wrap cmd (first ++ second) = wrap (wrap cmd first) second :=
  List.foldl_append

theorem map_wrap (change : ω → ω') (cmd : Cmd ω) (redirs : List (Redirection ω)) :
    (wrap cmd redirs).map change = wrap (cmd.map change) (redirs.map (Redirection.map change)) := by
  induction redirs generalizing cmd with
  | nil => rfl
  | cons redir redirs ih => exact ih _

theorem words_wrap (cmd : Cmd ω) (redirs : List (Redirection ω)) :
    (wrap cmd redirs).words = cmd.words ++ redirs.map Redirection.file := by
  induction redirs generalizing cmd with
  | nil => exact (List.append_nil _).symm
  | cons redir redirs ih =>
    refine (ih _).trans ?_
    simp [Cmd.words]

theorem addArg_wrap (word : ω) (argv : List ω) (redirs : List (Redirection ω)) :
    (wrap (.exec argv) redirs).addArg word = wrap (.exec (argv ++ [word])) redirs := by
  induction redirs using List.reverseRecOn with
  | nil => rfl
  | append_singleton redirs redir ih =>
    rw [wrap_append, wrap_append]
    exact congrArg (fun cmd => Cmd.redir cmd redir.file redir.mode redir.fd) ih

/-! ## Soundness -/

/-- The symbols that start a redirection. -/
theorem redir_of_nextIn (next : nextIn [60, 62] ts = true) :
    ∃ op rest, ts = op :: rest ∧ (op = .input ∨ op = .output ∨ op = .append) := by
  match ts, next with
  | .symbol c :: rest, next =>
    have either : c = 60 ∨ c = 62 := by simpa [nextIn, strchr] using next
    rcases either with rfl | rfl
    · exact ⟨_, rest, rfl, .inl rfl⟩
    · exact ⟨_, rest, rfl, .inr (.inl rfl)⟩
  | .append :: rest, _ => exact ⟨_, rest, rfl, .inr (.inr rfl)⟩

theorem symbol_of_nextIn
    (other : c ≠ 62)
    (next : nextIn [c] ts = true) :
    ∃ rest, ts = .symbol c :: rest := by
  match ts, next with
  | .symbol d :: rest, next =>
    obtain rfl : d = c := by simpa [nextIn, strchr] using next
    exact ⟨rest, rfl⟩
  | .append :: rest, next =>
    obtain rfl : 62 = c := by simpa [nextIn, strchr] using next
    exact absurd rfl other

/-- The redirection of a symbol and a word. -/
theorem redir_wrapRedir
    (op : Token)
    (which : op = .input ∨ op = .output ∨ op = .append)
    (cmd : Cmd Span)
    (word : Span) :
    ∃ redir : Redirection Span, Redir [op, .word word.text] (redir.map Span.text) ∧
        wrapRedir cmd op.code word = wrap cmd [redir] ∧ redir.file = word := by
  rcases which with rfl | rfl | rfl
  · exact ⟨⟨word, _, _⟩, .input _, rfl, rfl⟩
  · exact ⟨⟨word, _, _⟩, .output _, rfl, rfl⟩
  · exact ⟨⟨word, _, _⟩, .append _, rfl, rfl⟩

/-- What `parseredirs` has read. -/
structure ReadsRedirs (ps : Text) (redirs : List (Redirection Span)) (rest : Text) : Prop where
  /-- The tokens are those of the redirections. -/
  derives : ∃ ts, Reads ps ts rest ∧ Redirs ts (redirs.map (Redirection.map Span.text))
  /-- The files are words of the line. -/
  words : ∀ redir ∈ redirs, IsWord ps redir.file

theorem parseredirs_sound
    (fuel : Nat)
    (cmd : Cmd Span)
    (ps : Text)
    (clean : 0 ∉ ps) :
    Run.Spec (parseredirs fuel cmd) ps
      (fun out rest => ∃ redirs, out = wrap cmd redirs ∧ ReadsRedirs ps redirs rest)
      (fun reason => reason = .fuel → fuel ≤ ps.length) := by
  induction fuel generalizing cmd ps with
  | zero => exact fun _ => Nat.zero_le _
  | succ fuel ih =>
    refine .bind_ok (peek_eq clean [60, 62] (by decide)) ?_
    cases next : nextIn [60, 62] (tokens ps) with
    | false =>
      refine .pure ⟨[], rfl, ⟨[], reads_skipSpace ps, .nil⟩, ?_⟩
      simp
    | true =>
      obtain ⟨op, ts, shape, which⟩ := redir_of_nextIn next
      obtain ⟨_, middle, returned, before, _, _⟩ := gettoken_after_peek shape
      refine .bind_ok returned ?_
      cases file : tokens middle with
      | nil =>
        refine .bind_ok (gettoken_of_tokens_nil file) ?_
        exact .fault (fun stop => nomatch stop)
      | cons token us =>
        obtain ⟨word, rest, returned, reads, valid, isWord⟩ := gettoken_of_tokens file
        refine .bind_ok returned ?_
        by_cases code : token.code = 97
        · obtain ⟨text, rfl⟩ := token.code_eq_word valid code
          obtain ⟨textEq, isWord⟩ := isWord text rfl
          obtain ⟨redir, derives, wrapped, fileEq⟩ := redir_wrapRedir op which cmd word
          have through := before.trans reads
          simp only [code, ne_eq, not_true_eq_false, if_false]
          refine (ih _ rest (through.clean clean)).mono ?_ ?_
          · rintro out final ⟨redirs, rfl, ⟨us, more, rest⟩, words⟩
            rw [textEq] at derives
            refine ⟨redir :: redirs, by rw [wrapped]; rfl,
              ⟨_, through.trans more, .cons derives rest⟩, ?_⟩
            intro other member
            rcases List.mem_cons.mp member with rfl | member
            · rw [fileEq]
              exact isWord.mono before.suffix
            · exact (words other member).mono through.suffix
          · intro reason few stop
            have less := few stop
            have shorter := through.shorter
            rw [List.length_append, List.length_singleton] at shorter
            omega
        · simp only [code, ne_eq, not_false_eq_true, if_true]
          exact .fault (fun stop => nomatch stop)

/-- What `parseargs` has read. -/
structure ReadsArgs (ps : Text) (words : List Span) (redirs : List (Redirection Span))
    (rest : Text) : Prop where
  /-- The tokens are those of the words and the redirections. -/
  derives : ∃ ts, Reads ps ts rest ∧
    Args ts (words.map Span.text) (redirs.map (Redirection.map Span.text))
  /-- The words are words of the line. -/
  words : ∀ word ∈ words, IsWord ps word
  /-- So are the files. -/
  files : ∀ redir ∈ redirs, IsWord ps redir.file

theorem parseargs_sound
    (fuel argc : Nat)
    (argv : List Span)
    (before : List (Redirection Span))
    (ps : Text)
    (clean : 0 ∉ ps)
    (room : argc < MAXARGS) :
    Run.Spec (parseargs fuel argc (wrap (.exec argv) before)) ps (fun out rest => ∃ words redirs,
        out = wrap (.exec (argv ++ words)) (before ++ redirs) ∧
          argc + words.length < MAXARGS ∧ ReadsArgs ps words redirs rest)
      (fun reason => reason = .fuel → fuel ≤ ps.length) := by
  induction fuel generalizing argc argv before ps with
  | zero => exact fun _ => Nat.zero_le _
  | succ fuel ih =>
    have stops : ReadsArgs ps [] [] (skipSpace ps) :=
      ⟨⟨[], reads_skipSpace ps, .nil⟩, by simp, by simp⟩
    refine .bind_ok (peek_eq clean [124, 41, 38, 59] (by decide)) ?_
    cases next : nextIn [124, 41, 38, 59] (tokens ps) with
    | true => exact .pure ⟨[], [], by simp, room, stops⟩
    | false =>
      cases shape : tokens ps with
      | nil =>
        have ended := tokens_skipSpace ps
        rw [shape] at ended
        refine .bind_ok (gettoken_of_tokens_nil ended) ?_
        rw [skipSpace_of_tokens_nil shape] at stops
        exact .pure ⟨[], [], by simp, room, stops⟩
      | cons token ts =>
        obtain ⟨word, middle, returned, reads, valid, isWord⟩ := gettoken_after_peek shape
        refine .bind_ok returned ?_
        simp only [token.code_ne_zero valid, if_false]
        by_cases code : token.code = 97
        · simp only [code, ne_eq, not_true_eq_false, if_false]
          obtain ⟨text, rfl⟩ := token.code_eq_word valid code
          obtain ⟨textEq, isWord⟩ := isWord text rfl
          by_cases many : argc + 1 ≥ MAXARGS
          · simp only [many, if_true]
            exact .fault (fun stop => nomatch stop)
          simp only [many, if_false]
          rw [addArg_wrap]
          have shorter := reads.shorter
          rw [List.length_singleton] at shorter
          refine .bind ((parseredirs_sound fuel _ middle (reads.clean clean)).mono ?_ ?_)
          · rintro _ rest ⟨redirs, rfl, ⟨us, readsRedirs, derives⟩, files⟩
            have through := reads.trans readsRedirs
            rw [← wrap_append]
            refine (ih (argc + 1) _ _ rest (through.clean clean) (Nat.lt_of_not_le many)).mono ?_ ?_
            · rintro _ final ⟨words, others, rfl, few, ⟨vs, readsArgs, args⟩, wordsIn, filesIn⟩
              refine ⟨word :: words, redirs ++ others, by simp, ?_,
                ⟨_, through.trans readsArgs, ?_⟩, ?_, ?_⟩
              · rw [List.length_cons]
                omega
              · rw [List.map_cons, List.map_append, textEq]
                exact .cons text derives args
              · intro other member
                rcases List.mem_cons.mp member with rfl | member
                · exact isWord
                · exact (wordsIn other member).mono through.suffix
              · intro other member
                rcases List.mem_append.mp member with member | member
                · exact (files other member).mono reads.suffix
                · exact (filesIn other member).mono through.suffix
            · intro reason few stop
              have less := few stop
              have longer := readsRedirs.suffix.length_le
              omega
          · intro reason few stop
            have less := few stop
            omega
        · simp only [code, ne_eq, not_false_eq_true, if_true]
          exact .fault (fun stop => nomatch stop)

theorem parsebacks_sound
    (fuel : Nat)
    (cmd : Cmd Span)
    (ps : Text)
    (clean : 0 ∉ ps) :
    Run.Spec (parsebacks fuel cmd) ps (fun out rest => ∃ backs, out = Cmd.back^[backs] cmd ∧
        Reads ps (List.replicate backs .amp) rest)
      (fun reason => reason = .fuel → fuel ≤ ps.length) := by
  induction fuel generalizing cmd ps with
  | zero => exact fun _ => Nat.zero_le _
  | succ fuel ih =>
    refine .bind_ok (peek_eq clean [38] (by decide)) ?_
    cases next : nextIn [38] (tokens ps) with
    | false => exact .pure ⟨0, rfl, reads_skipSpace ps⟩
    | true =>
      obtain ⟨ts, shape⟩ := symbol_of_nextIn (by decide) next
      obtain ⟨_, middle, returned, reads, _, _⟩ := gettoken_after_peek shape
      refine .bind_ok returned ((ih (.back cmd) middle (reads.clean clean)).mono ?_ ?_)
      · rintro _ rest ⟨backs, rfl, more⟩
        exact ⟨backs + 1, rfl, reads.trans more⟩
      · intro reason few stop
        have less := few stop
        have shorter := reads.shorter
        rw [List.length_singleton] at shorter
        omega

/-- What a procedure of a nonterminal does with a text: what it has read
derives from the nonterminal, and it runs out of fuel on a text that is too
long only. -/
def Sound (category : Category) (run : ParseM (Cmd Span)) (fuel : Nat) (slack : Nat) : Prop :=
  ∀ ps, 0 ∉ ps → Run.Spec run ps
      (fun out rest => (∃ ts, Reads ps ts rest ∧ Derives category ts (out.map Span.text)) ∧
        ∀ word ∈ out.words, IsWord ps word)
      (fun reason => reason = .fuel → fuel < 4 * ps.length + slack)

theorem map_back (change : ω → ω') (backs : Nat) (cmd : Cmd ω) :
    (Cmd.back^[backs] cmd).map change = Cmd.back^[backs] (cmd.map change) := by
  induction backs generalizing cmd with
  | zero => rfl
  | succ backs ih => exact ih (.back cmd)

theorem words_back (backs : Nat) (cmd : Cmd ω) :
    (Cmd.back^[backs] cmd).words = cmd.words := by
  induction backs generalizing cmd with
  | zero => rfl
  | succ backs ih => exact ih (.back cmd)

theorem parseline_step
    (pipe : Sound .pipe (parsepipe fuel) fuel 3)
    (line : Sound .line (parseline fuel) fuel 4) :
    Sound .line (parseline (fuel + 1)) (fuel + 1) 4 := by
  intro ps clean
  refine .bind ((pipe ps clean).mono ?_ ?_)
  · rintro cmd middle ⟨⟨ts, reads, derives⟩, words⟩
    have longer := reads.suffix.length_le
    refine .bind ((parsebacks_sound fuel cmd middle (reads.clean clean)).mono ?_ ?_)
    · rintro _ rest ⟨backs, rfl, more⟩
      have through := reads.trans more
      refine .bind_ok (peek_eq (through.clean clean) [59] (by decide)) ?_
      cases next : nextIn [59] (tokens rest) with
      | false =>
        refine .pure ⟨⟨_, through.trans (reads_skipSpace rest), ?_⟩, ?_⟩
        · rw [map_back, List.append_nil]
          exact .line derives backs
        · rw [words_back]
          exact words
      | true =>
        obtain ⟨us, shape⟩ := symbol_of_nextIn (by decide) next
        obtain ⟨_, after, returned, semi, _, _⟩ := gettoken_after_peek shape
        have beyond := through.trans semi
        refine .bind_ok returned (Run.Spec.bind ((line after (beyond.clean clean)).mono ?_ ?_))
        · rintro right final ⟨⟨vs, readsRight, derivesRight⟩, wordsRight⟩
          refine .pure ⟨⟨_, beyond.trans readsRight, ?_⟩, ?_⟩
          · rw [Cmd.map, map_back, List.append_assoc]
            exact .list derives backs derivesRight
          · intro word member
            rw [Cmd.words, words_back] at member
            rcases List.mem_append.mp member with member | member
            · exact words word member
            · exact (wordsRight word member).mono beyond.suffix
        · intro reason few stop
          have less := few stop
          have shorter := beyond.shorter
          rw [List.length_append, List.length_singleton] at shorter
          omega
    · intro reason few stop
      have less := few stop
      omega
  · intro reason few stop
    have less := few stop
    omega

theorem parsepipe_step
    (exec : Sound .exec (parseexec fuel) fuel 2)
    (pipe : Sound .pipe (parsepipe fuel) fuel 3) :
    Sound .pipe (parsepipe (fuel + 1)) (fuel + 1) 3 := by
  intro ps clean
  refine .bind ((exec ps clean).mono ?_ ?_)
  · rintro cmd middle ⟨⟨ts, reads, derives⟩, words⟩
    refine .bind_ok (peek_eq (reads.clean clean) [124] (by decide)) ?_
    cases next : nextIn [124] (tokens middle) with
    | false =>
      refine .pure ⟨⟨_, reads.trans (reads_skipSpace middle), ?_⟩, words⟩
      rw [List.append_nil]
      exact .single derives
    | true =>
      obtain ⟨us, shape⟩ := symbol_of_nextIn (by decide) next
      obtain ⟨_, after, returned, bar, _, _⟩ := gettoken_after_peek shape
      have beyond := reads.trans bar
      refine .bind_ok returned (Run.Spec.bind ((pipe after (beyond.clean clean)).mono ?_ ?_))
      · rintro right final ⟨⟨vs, readsRight, derivesRight⟩, wordsRight⟩
        refine .pure ⟨⟨_, beyond.trans readsRight, ?_⟩, ?_⟩
        · rw [List.append_assoc]
          exact .pipe derives derivesRight
        · intro word member
          rcases List.mem_append.mp member with member | member
          · exact words word member
          · exact (wordsRight word member).mono beyond.suffix
      · intro reason few stop
        have less := few stop
        have shorter := beyond.shorter
        rw [List.length_append, List.length_singleton] at shorter
        omega
  · intro reason few stop
    have less := few stop
    omega

theorem parseexec_step (block : Sound .exec (parseblock fuel) fuel 1) :
    Sound .exec (parseexec (fuel + 1)) (fuel + 1) 2 := by
  intro ps clean
  have longer := (skipSpace_suffix ps).length_le
  refine .bind_ok (peek_eq clean [40] (by decide)) ?_
  cases next : nextIn [40] (tokens ps) with
  | true =>
    refine (block _ ((reads_skipSpace ps).clean clean)).mono ?_ ?_
    · rintro cmd rest ⟨⟨ts, reads, derives⟩, words⟩
      exact ⟨⟨ts, (reads_skipSpace ps).trans reads, derives⟩,
        fun word member => (words word member).mono (skipSpace_suffix ps)⟩
    · intro reason few stop
      have less := few stop
      omega
  | false =>
    refine .bind ((parseredirs_sound fuel (.exec []) _
      ((reads_skipSpace ps).clean clean)).mono ?_ ?_)
    · rintro _ middle ⟨redirs, rfl, ⟨ts, reads, derives⟩, files⟩
      have through := (reads_skipSpace ps).trans reads
      refine (parseargs_sound fuel 0 [] redirs middle (through.clean clean) (by decide)).mono ?_ ?_
      · rintro _ rest ⟨words, others, rfl, few, ⟨us, readsArgs, args⟩, wordsIn, filesIn⟩
        refine ⟨⟨_, through.trans readsArgs, ?_⟩, ?_⟩
        · rw [map_wrap, List.map_append]
          refine .simple derives args ?_
          rw [List.nil_append, List.length_map]
          omega
        intro word member
        rw [words_wrap] at member
        rcases List.mem_append.mp member with member | member
        · exact (wordsIn word member).mono through.suffix
        · obtain ⟨redir, among, rfl⟩ := List.mem_map.mp member
          rcases List.mem_append.mp among with among | among
          · exact (files redir among).mono (skipSpace_suffix ps)
          · exact (filesIn redir among).mono through.suffix
      · intro reason few stop
        have less := few stop
        have shorter := through.suffix.length_le
        omega
    · intro reason few stop
      have less := few stop
      omega

theorem parseblock_step (line : Sound .line (parseline fuel) fuel 4) :
    Sound .exec (parseblock (fuel + 1)) (fuel + 1) 1 := by
  intro ps clean
  refine .bind_ok (peek_eq clean [40] (by decide)) ?_
  cases next : nextIn [40] (tokens ps) with
  | false => exact .fault (fun stop => nomatch stop)
  | true =>
    obtain ⟨us, shape⟩ := symbol_of_nextIn (by decide) next
    obtain ⟨_, inside, returned, left, _, _⟩ := gettoken_after_peek shape
    have shorter := left.shorter
    rw [List.length_singleton] at shorter
    refine .bind_ok returned (Run.Spec.bind ((line inside (left.clean clean)).mono ?_ ?_))
    · rintro cmd middle ⟨⟨ts, reads, derives⟩, words⟩
      have through := left.trans reads
      refine .bind_ok (peek_eq (through.clean clean) [41] (by decide)) ?_
      cases next : nextIn [41] (tokens middle) with
      | false => exact .fault (fun stop => nomatch stop)
      | true =>
        obtain ⟨vs, shape⟩ := symbol_of_nextIn (by decide) next
        obtain ⟨_, after, returned, right, _, _⟩ := gettoken_after_peek shape
        have beyond := through.trans right
        refine .bind_ok returned
          ((parseredirs_sound fuel cmd after (beyond.clean clean)).mono ?_ ?_)
        · rintro _ rest ⟨redirs, rfl, ⟨ws, readsRedirs, redirsDerive⟩, files⟩
          refine ⟨⟨_, beyond.trans readsRedirs, ?_⟩, ?_⟩
          · rw [map_wrap, List.append_assoc]
            exact .block derives redirsDerive
          · intro word member
            rw [words_wrap] at member
            rcases List.mem_append.mp member with member | member
            · exact (words word member).mono left.suffix
            · obtain ⟨redir, among, rfl⟩ := List.mem_map.mp member
              exact (files redir among).mono beyond.suffix
        · intro reason few stop
          have less := few stop
          have longer := beyond.suffix.length_le
          omega
    · intro reason few stop
      have less := few stop
      omega

/-- All four procedures are sound. -/
theorem procedures_sound (fuel : Nat) :
    Sound .line (parseline fuel) fuel 4 ∧ Sound .pipe (parsepipe fuel) fuel 3 ∧
      Sound .exec (parseexec fuel) fuel 2 ∧ Sound .exec (parseblock fuel) fuel 1 := by
  induction fuel with
  | zero =>
    refine ⟨?_, ?_, ?_, ?_⟩ <;> exact fun ps _ _ => Nat.succ_pos _
  | succ fuel ih =>
    obtain ⟨line, pipe, exec, block⟩ := ih
    exact ⟨parseline_step pipe line, parsepipe_step exec pipe, parseexec_step block,
      parseblock_step line⟩

/-! ## Completeness -/

/-- A token sequence is at its end or goes on with one of the given symbols. -/
def Ends (closing : Text) (after : List Token) : Prop :=
  after = [] ∨ ∃ c ∈ closing, ∃ rest, after = .symbol c :: rest

theorem Ends.mono
    (ends : Ends closing after)
    (included : ∀ c ∈ closing, c ∈ larger) :
    Ends larger after := by
  rcases ends with rfl | ⟨c, member, rest, rfl⟩
  · exact .inl rfl
  · exact .inr ⟨c, included c member, rest, rfl⟩

theorem Ends.nextIn_eq_false
    (ends : Ends closing after)
    (apart : ∀ c ∈ closing, c ∉ toks) :
    nextIn toks after = false := by
  rcases ends with rfl | ⟨c, member, rest, rfl⟩
  · rfl
  · simpa [nextIn, strchr] using apart c member

theorem peek_of_nextIn
    (clean : 0 ∉ ps)
    (toks : Text)
    (only : ∀ c ∈ toks, c ∈ symbols)
    (shape : tokens ps = ts)
    (next : nextIn toks ts = found) :
    peek toks ps = .ok (found, skipSpace ps) := by
  rw [peek_eq clean toks only, shape, next]

theorem Redir.unique
    (first : Redir ts redir)
    (second : Redir ts other) :
    redir = other := by
  cases first <;> cases second <;> rfl

theorem Redir.shape (derives : Redir ts redir) :
    ∃ op file, ts = [op, .word file] ∧ (∀ rest, nextIn [60, 62] (ts ++ rest) = true) ∧
      (op = .input ∨ op = .output ∨ op = .append) := by
  cases derives with
  | input file => exact ⟨_, file, rfl, fun _ => rfl, .inl rfl⟩
  | output file => exact ⟨_, file, rfl, fun _ => rfl, .inr (.inl rfl)⟩
  | append file => exact ⟨_, file, rfl, fun _ => rfl, .inr (.inr rfl)⟩

theorem parseredirs_complete
    (derives : Redirs ts redirs)
    (cmd : Cmd Span)
    (clean : 0 ∉ ps)
    (shape : tokens ps = ts ++ after)
    (ends : nextIn [60, 62] after = false)
    (enough : ps.length < fuel) :
    Run.Spec (parseredirs fuel cmd) ps
      (fun out rest => Reads ps ts rest ∧ ∃ spans, out = wrap cmd spans ∧
        spans.map (Redirection.map Span.text) = redirs)
      (fun _ => False) := by
  induction derives generalizing cmd ps fuel with
  | nil =>
    obtain ⟨fuel, rfl⟩ := Nat.exists_eq_succ_of_ne_zero (Nat.ne_zero_of_lt enough)
    refine .bind_ok (peek_of_nextIn clean [60, 62] (by decide) shape ends) ?_
    exact .pure ⟨reads_skipSpace ps, [], rfl, rfl⟩
  | @cons ts redir us redirs first rest ih =>
    obtain ⟨fuel, rfl⟩ := Nat.exists_eq_succ_of_ne_zero (Nat.ne_zero_of_lt enough)
    obtain ⟨op, file, rfl, next, which⟩ := first.shape
    rw [List.append_assoc] at shape
    refine .bind_ok (peek_of_nextIn clean [60, 62] (by decide) shape (next _)) ?_
    obtain ⟨_, middle, returned, reads, _, _⟩ := gettoken_after_peek shape
    refine .bind_ok returned ?_
    have shape : tokens middle = .word file :: (us ++ after) := reads.rest_tokens shape
    obtain ⟨word, rest, returned, readsFile, _, isWord⟩ := gettoken_of_tokens shape
    refine .bind_ok returned ?_
    obtain ⟨span, derived, wrapped, _⟩ := redir_wrapRedir op which cmd word
    rw [(isWord file rfl).1] at derived
    have through := reads.trans readsFile
    have shorter := through.shorter
    rw [List.length_append, List.length_singleton] at shorter
    refine (ih (wrapRedir cmd op.code word) (through.clean clean)
      (readsFile.rest_tokens shape) (by omega)).mono ?_ (fun _ => id)
    rintro _ final ⟨more, spans, rfl, mapped⟩
    refine ⟨through.trans more, span :: spans, by rw [wrapped]; rfl, ?_⟩
    rw [List.map_cons, mapped, first.unique derived]

/-- The symbols that may follow a simple command. -/
def execEnd : Text := [41, 38, 59, 124]

theorem Args.nextIn_redir
    (args : Args ts words redirs)
    (ends : Ends execEnd after) :
    nextIn [60, 62] (ts ++ after) = false := by
  cases args with
  | nil => exact ends.nextIn_eq_false (by decide)
  | cons => rfl

theorem parseargs_complete
    (args : Args ts words redirs)
    (argv : List Span)
    (before : List (Redirection Span))
    (clean : 0 ∉ ps)
    (shape : tokens ps = ts ++ after)
    (ends : Ends execEnd after)
    (few : argc + words.length < MAXARGS)
    (enough : ps.length < fuel) :
    Run.Spec (parseargs fuel argc (wrap (.exec argv) before)) ps
      (fun out rest => Reads ps ts rest ∧ ∃ spans files,
        out = wrap (.exec (argv ++ spans)) (before ++ files) ∧
          spans.map Span.text = words ∧ files.map (Redirection.map Span.text) = redirs)
      (fun _ => False) := by
  induction args generalizing argc argv before ps fuel with
  | nil =>
    obtain ⟨fuel, rfl⟩ := Nat.exists_eq_succ_of_ne_zero (Nat.ne_zero_of_lt enough)
    have stops : Reads ps [] (skipSpace ps) := reads_skipSpace ps
    rcases ends with rfl | ⟨c, member, rest, rfl⟩
    · refine .bind_ok (peek_of_nextIn clean [124, 41, 38, 59] (by decide) shape rfl) ?_
      have ended := (tokens_skipSpace ps).trans shape
      refine .bind_ok (gettoken_of_tokens_nil ended) ?_
      rw [skipSpace_of_tokens_nil shape] at stops
      exact .pure ⟨stops, [], [], by simp, rfl, rfl⟩
    · have next : nextIn [124, 41, 38, 59] (.symbol c :: rest) = true := by
        have listed : ∀ d ∈ execEnd, strchr [124, 41, 38, 59] d = true := by decide
        exact listed c member
      refine .bind_ok (peek_of_nextIn clean [124, 41, 38, 59] (by decide) shape next) ?_
      exact .pure ⟨stops, [], [], by simp, rfl, rfl⟩
  | @cons ts redirs us words others text first rest ih =>
    obtain ⟨fuel, rfl⟩ := Nat.exists_eq_succ_of_ne_zero (Nat.ne_zero_of_lt enough)
    rw [List.length_cons] at few
    refine .bind_ok (peek_of_nextIn clean [124, 41, 38, 59] (by decide) shape rfl) ?_
    obtain ⟨word, middle, returned, reads, _, isWord⟩ := gettoken_after_peek shape
    have shorter := reads.shorter
    rw [List.length_singleton] at shorter
    refine .bind_ok returned ?_
    have room : ¬(argc + 1 ≥ MAXARGS) := by omega
    simp only [Token.code, ne_eq, not_true_eq_false, if_false, room]
    rw [addArg_wrap, if_neg (by decide)]
    have shape : tokens middle = ts ++ (us ++ after) := by
      rw [← List.append_assoc]
      exact reads.rest_tokens shape
    refine .bind ((parseredirs_complete first _ (reads.clean clean) shape
      (rest.nextIn_redir ends) (by omega)).mono ?_ (fun _ => id))
    rintro _ next ⟨readsRedirs, files, rfl, mapped⟩
    have through := reads.trans readsRedirs
    have longer := readsRedirs.suffix.length_le
    rw [← wrap_append]
    refine (ih _ _ (through.clean clean) (readsRedirs.rest_tokens shape) (by omega)
      (by omega)).mono ?_ (fun _ => id)
    rintro _ final ⟨readsArgs, spans, moreFiles, rfl, mappedSpans, mappedFiles⟩
    refine ⟨through.trans readsArgs, word :: spans, files ++ moreFiles, by simp, ?_, ?_⟩
    · rw [List.map_cons, mappedSpans, (isWord text rfl).1]
    · rw [List.map_append, mapped, mappedFiles]

theorem parsebacks_complete
    (backs : Nat)
    (cmd : Cmd Span)
    (clean : 0 ∉ ps)
    (shape : tokens ps = List.replicate backs .amp ++ after)
    (ends : nextIn [38] after = false)
    (enough : ps.length < fuel) :
    Run.Spec (parsebacks fuel cmd) ps (fun out rest => Reads ps (List.replicate backs .amp) rest ∧
        out = Cmd.back^[backs] cmd)
      (fun _ => False) := by
  induction backs generalizing cmd ps fuel with
  | zero =>
    obtain ⟨fuel, rfl⟩ := Nat.exists_eq_succ_of_ne_zero (Nat.ne_zero_of_lt enough)
    refine .bind_ok (peek_of_nextIn clean [38] (by decide) shape ends) ?_
    exact .pure ⟨reads_skipSpace ps, rfl⟩
  | succ backs ih =>
    obtain ⟨fuel, rfl⟩ := Nat.exists_eq_succ_of_ne_zero (Nat.ne_zero_of_lt enough)
    refine .bind_ok (peek_of_nextIn clean [38] (by decide) shape rfl) ?_
    obtain ⟨_, middle, returned, reads, _, _⟩ := gettoken_after_peek shape
    have shorter := reads.shorter
    rw [List.length_singleton] at shorter
    refine .bind_ok returned ((ih (.back cmd) (reads.clean clean)
      (reads.rest_tokens shape) (by omega)).mono ?_ (fun _ => id))
    rintro _ rest ⟨more, rfl⟩
    exact ⟨reads.trans more, rfl⟩

/-- The procedure of a nonterminal. -/
def procedure : Category → Nat → ParseM (Cmd Span)
  | .line => parseline
  | .pipe => parsepipe
  | .exec => parseexec

/-- Fuel a procedure needs besides four units for every character. -/
def slack : Category → Nat
  | .line => 4
  | .pipe => 3
  | .exec => 2

theorem exists_fuel (enough : length + slack category ≤ fuel) :
    ∃ less, fuel = less + 1 := by
  refine ⟨fuel - 1, ?_⟩
  cases category <;> simp only [slack] at enough <;> omega

/-- The symbols that may follow a nonterminal. -/
def follow : Category → Text
  | .line => [41]
  | .pipe => [41, 38, 59]
  | .exec => execEnd

theorem ends_replicate_amp
    (backs : Nat)
    (ends : Ends (follow .pipe) after) :
    Ends (follow .pipe) (List.replicate backs .amp ++ after) := by
  cases backs with
  | zero => exact ends
  | succ backs => exact .inr ⟨38, by decide, _, rfl⟩

theorem nextIn_left_simple
    (before : Redirs ts redirs)
    (args : Args us words others)
    (ends : Ends execEnd after) :
    nextIn [40] (ts ++ us ++ after) = false := by
  cases before with
  | nil =>
    cases args with
    | nil => exact ends.nextIn_eq_false (by decide)
    | cons => rfl
  | cons first rest => cases first <;> rfl

/-- The procedure of a nonterminal reads exactly what derives from it. -/
theorem procedure_complete
    (derives : Derives category ts tree)
    (clean : 0 ∉ ps)
    (shape : tokens ps = ts ++ after)
    (ends : Ends (follow category) after)
    (enough : 4 * ps.length + slack category ≤ fuel) :
    Run.Spec (procedure category fuel) ps
      (fun out rest => Reads ps ts rest ∧ out.map Span.text = tree)
      (fun _ => False) := by
  induction derives generalizing ps after fuel with
  | line first backs ih =>
    obtain ⟨fuel, rfl⟩ := exists_fuel enough
    simp only [slack] at enough ih
    rw [List.append_assoc] at shape
    have pipeEnds : Ends (follow .pipe) after := ends.mono (by decide)
    refine .bind ((ih clean shape (ends_replicate_amp backs pipeEnds)
      (by omega)).mono ?_ (fun _ => id))
    rintro cmd middle ⟨reads, rfl⟩
    have longer := reads.suffix.length_le
    refine .bind ((parsebacks_complete backs cmd (reads.clean clean)
      (reads.rest_tokens shape) (ends.nextIn_eq_false (by decide)) (by omega)).mono ?_
      (fun _ => id))
    rintro _ rest ⟨more, rfl⟩
    have through := reads.trans more
    rw [← List.append_assoc] at shape
    refine .bind_ok (peek_of_nextIn (through.clean clean) [59] (by decide)
      (through.rest_tokens shape) (ends.nextIn_eq_false (by decide))) ?_
    refine .pure ⟨?_, map_back _ _ _⟩
    simpa using through.trans (reads_skipSpace rest)
  | @list ts cmd us next first backs rest ihFirst ihRest =>
    obtain ⟨fuel, rfl⟩ := exists_fuel enough
    simp only [slack] at enough ihFirst ihRest
    have grouped : tokens ps = ts ++ (List.replicate backs .amp ++ (.semi :: (us ++ after))) := by
      simpa using shape
    have semiEnds : Ends (follow .pipe) (.semi :: (us ++ after)) :=
      .inr ⟨59, by decide, _, rfl⟩
    refine .bind ((ihFirst clean grouped (ends_replicate_amp backs semiEnds)
      (by omega)).mono ?_ (fun _ => id))
    rintro cmd middle ⟨reads, rfl⟩
    have longer := reads.suffix.length_le
    have backsShape := reads.rest_tokens grouped
    refine .bind ((parsebacks_complete backs cmd (reads.clean clean) backsShape
      rfl (by omega)).mono ?_ (fun _ => id))
    rintro _ rest ⟨more, rfl⟩
    have through := reads.trans more
    have semiShape := more.rest_tokens backsShape
    refine .bind_ok (peek_of_nextIn (through.clean clean) [59] (by decide) semiShape rfl) ?_
    obtain ⟨_, inside, returned, semi, _, _⟩ := gettoken_after_peek semiShape
    have beyond := through.trans semi
    have shorter := beyond.shorter
    rw [List.length_append, List.length_singleton] at shorter
    refine .bind_ok returned (Run.Spec.bind ((ihRest (beyond.clean clean)
      (semi.rest_tokens semiShape) ends (by omega)).mono ?_ (fun _ => id)))
    rintro right final ⟨readsRight, rfl⟩
    refine .pure ⟨?_, ?_⟩
    · simpa using beyond.trans readsRight
    · rw [Cmd.map, map_back]
  | single only ih =>
    obtain ⟨fuel, rfl⟩ := exists_fuel enough
    simp only [slack] at enough ih
    refine .bind ((ih clean shape (ends.mono (by decide)) (by omega)).mono ?_ (fun _ => id))
    rintro cmd middle ⟨reads, rfl⟩
    refine .bind_ok (peek_of_nextIn (reads.clean clean) [124] (by decide)
      (reads.rest_tokens shape) (ends.nextIn_eq_false (by decide))) ?_
    refine .pure ⟨?_, rfl⟩
    simpa using reads.trans (reads_skipSpace middle)
  | @pipe ts cmd us next first rest ihFirst ihRest =>
    obtain ⟨fuel, rfl⟩ := exists_fuel enough
    simp only [slack] at enough ihFirst ihRest
    have grouped : tokens ps = ts ++ (.bar :: (us ++ after)) := by
      simpa using shape
    refine .bind ((ihFirst clean grouped (.inr ⟨124, by decide, _, rfl⟩)
      (by omega)).mono ?_ (fun _ => id))
    rintro cmd middle ⟨reads, rfl⟩
    have barShape := reads.rest_tokens grouped
    refine .bind_ok (peek_of_nextIn (reads.clean clean) [124] (by decide) barShape rfl) ?_
    obtain ⟨_, inside, returned, bar, _, _⟩ := gettoken_after_peek barShape
    have beyond := reads.trans bar
    have shorter := beyond.shorter
    rw [List.length_append, List.length_singleton] at shorter
    refine .bind_ok returned (Run.Spec.bind ((ihRest (beyond.clean clean)
      (bar.rest_tokens barShape) ends (by omega)).mono ?_ (fun _ => id)))
    rintro right final ⟨readsRight, rfl⟩
    refine .pure ⟨?_, rfl⟩
    simpa using beyond.trans readsRight
  | @block ts cmd us redirs inner trailing ih =>
    obtain ⟨fuel, rfl⟩ := exists_fuel enough
    simp only [slack] at enough ih
    obtain ⟨fuel, rfl⟩ : ∃ less, fuel = less + 1 := ⟨fuel - 1, by omega⟩
    have grouped : tokens ps = .left :: (ts ++ (.right :: (us ++ after))) := by
      simpa using shape
    refine .bind_ok (peek_of_nextIn clean [40] (by decide) grouped rfl) ?_
    have skipped := (tokens_skipSpace ps).trans grouped
    refine .bind_ok (peek_of_nextIn ((reads_skipSpace ps).clean clean) [40]
      (by decide) skipped rfl) ?_
    obtain ⟨_, inside, returned, left, _, _⟩ := gettoken_after_peek skipped
    have opened := (reads_skipSpace ps).trans left
    have shorter := opened.shorter
    rw [List.nil_append, List.length_singleton] at shorter
    have innerShape := left.rest_tokens skipped
    refine .bind_ok returned (Run.Spec.bind ((ih (opened.clean clean) innerShape
      (.inr ⟨41, by decide, _, rfl⟩) (by omega)).mono ?_ (fun _ => id)))
    rintro cmd middle ⟨reads, rfl⟩
    have through := opened.trans reads
    have rightShape := reads.rest_tokens innerShape
    refine .bind_ok (peek_of_nextIn (through.clean clean) [41] (by decide) rightShape rfl) ?_
    obtain ⟨_, outside, returned, right, _, _⟩ := gettoken_after_peek rightShape
    have beyond := through.trans right
    have longer := beyond.suffix.length_le
    refine .bind_ok returned ((parseredirs_complete trailing cmd
      (beyond.clean clean) (right.rest_tokens rightShape)
      (ends.nextIn_eq_false (by decide)) (by omega)).mono ?_ (fun _ => id))
    rintro _ rest ⟨readsRedirs, spans, rfl, mapped⟩
    refine ⟨?_, ?_⟩
    · simpa using beyond.trans readsRedirs
    · rw [map_wrap, mapped]
  | @simple ts redirs us words others before args few =>
    obtain ⟨fuel, rfl⟩ := exists_fuel enough
    simp only [slack] at enough
    refine .bind_ok (peek_of_nextIn clean [40] (by decide) shape
      (nextIn_left_simple before args ends)) ?_
    have longer := (skipSpace_suffix ps).length_le
    have grouped : tokens (skipSpace ps) = ts ++ (us ++ after) := by
      simpa using shape
    refine .bind ((parseredirs_complete before (.exec [])
      ((reads_skipSpace ps).clean clean) grouped (args.nextIn_redir ends)
      (by omega)).mono ?_ (fun _ => id))
    rintro _ middle ⟨reads, spans, rfl, mapped⟩
    have through := (reads_skipSpace ps).trans reads
    have shorter := through.suffix.length_le
    have room : 0 + words.length < MAXARGS := by
      rw [Nat.zero_add]
      exact Nat.lt_of_le_sub_one (by decide) few
    refine (parseargs_complete args [] spans (through.clean clean)
      (reads.rest_tokens grouped) ends room (by omega)).mono ?_ (fun _ => id)
    rintro _ rest ⟨readsArgs, wordSpans, files, rfl, mappedWords, mappedFiles⟩
    refine ⟨through.trans readsArgs, ?_⟩
    rw [map_wrap, List.map_append, mapped, mappedFiles, ← mappedWords]
    rfl

end Sh
end Xv6
