import LoxLang.Proofs.Console.Feeding
import LoxLang.Proofs.Console.Lines
import LoxLang.Proofs.Running.Layout

/-!
Statements that are typed over several lines.

The console joins the lines of a statement with spaces and counts parentheses in what it has so far.
While no line has a comment that goes to its end, the joined lines have the tokens of the lines one
under the other, so the statement is run as if it were a text of several lines. Such a comment,
however, takes all later lines with it, and the statement is never run
(`feedAll_statement`).
-/

set_option autoImplicit false
set_option relaxedAutoImplicit false

namespace LoxLang

open Source Piece Text

/-! ### What is kept of the lines -/

theorem clear_nil : Clear [] [] :=
  ⟨rfl, trivial, by simp, trivial, by simp⟩

theorem toList_joinLine (pending line : String) : (joinLine pending line).1.toList =
    trim isBlank (if pending = "" then line.toList else pending.toList ++ ' ' :: line.toList) := by
  unfold joinLine strip
  rw [String.toList_ofList]
  by_cases h : pending = ""
  · simp [h]
  · simp [h]

/-- A line joined to what was kept of the lines before it. -/
theorem exists_joined {pending line : String} {ps ls : List Piece}
    (hps : Clear pending.toList ps) (hls : Clear line.toList ls) :
    ∃ rs, Clear (joinLine pending (strip line)).1.toList rs ∧
      (Commented rs ↔ Commented ps ∨ Commented ls) ∧
      (Commented ps → rs.filter isToken = ps.filter isToken) ∧
      (¬ Commented ps → rs.filter isToken = ps.filter isToken ++ ls.filter isToken) := by
  obtain ⟨ls', hls', htrims⟩ := hls.exists_trim
  have hline : (strip line).toList = trim isBlank line.toList := String.toList_ofList
  rw [← hline] at hls'
  rw [toList_joinLine]
  by_cases hempty : pending = ""
  · subst hempty
    obtain rfl := hps.unique clear_nil
    obtain ⟨rs, hrs, hrest⟩ := hls'.exists_trim
    refine ⟨rs, by simpa using hrs, ?_, fun h ↦ absurd h (by simp [Commented]), fun _ ↦ ?_⟩
    · rw [hrest.commented_iff, htrims.commented_iff]
      simp [Commented]
    · rw [hrest.filter_isToken, htrims.filter_isToken]
      rfl
  · rw [if_neg hempty]
    by_cases hcommented : Commented ps
    · have hspace : '\n' ∉ ' ' :: (strip line).toList := by simpa using hls'.line
      obtain ⟨us, hus, htokens, hcomment⟩ := hps.extend hcommented hspace
      obtain ⟨rs, hrs, hrest⟩ := hus.exists_trim
      refine ⟨rs, hrs, ?_, fun _ ↦ hrest.filter_isToken.trans htokens, fun h ↦ absurd hcommented h⟩
      simp [hrest.commented_iff, hcomment, hcommented]
    · obtain ⟨us, hus, htokens, hcomment⟩ := hps.join hcommented hls'
      obtain ⟨rs, hrs, hrest⟩ := hus.exists_trim
      refine ⟨rs, hrs, ?_, fun h ↦ absurd h hcommented, fun _ ↦ ?_⟩
      · rw [hrest.commented_iff, hcomment, htrims.commented_iff]
        simp [hcommented]
      · rw [hrest.filter_isToken, htokens, htrims.filter_isToken]

/-- Texts with the same tokens but for lines are worked on alike. -/
theorem SameUpToLines.work {source source' : String} (h : SameUpToLines source source')
    (showsTree : Bool) :
    Evaluation.Like AnyLine (Session.work showsTree source) (Session.work showsTree source') := by
  unfold Session.work
  cases showsTree with
  | false => exact h.run
  | true =>
    refine h.dump.bind fun text text' htext ↦ ?_
    obtain rfl : text = text' := htext
    by_cases hempty : text = ""
    · simpa [hempty] using simulates_pure rfl
    · simpa [hempty] using Evaluation.like_printLine text

namespace Console

/-! ### Lines that are kept -/

/-- The tokens of lines whose pieces are known. -/
def tokensOf (rows : String → List Piece) (lines : List String) : List Piece :=
  lines.flatMap fun line ↦ (rows line).filter isToken

/-- The console has kept the lines, and nothing was run. -/
structure Keeps (session : Session) (rows : String → List Piece) (lines : List String)
    (c : Console) : Prop where
  session : c.session = session
  row : ∃ ps, Clear c.pending.toList ps ∧
    (Commented ps ↔ ∃ line ∈ lines, Commented (rows line)) ∧
    (¬ Commented ps → ps.filter isToken = tokensOf rows lines) ∧
    (lines ≠ [] → LeavesOpen (kinds ps))

section

variable {session : Session} {rows : String → List Piece} {lines : List String} {line : String}
  {c : Console}

theorem tokensOf_concat : tokensOf rows (lines ++ [line]) =
    tokensOf rows lines ++ (rows line).filter isToken := by
  unfold tokensOf
  rw [List.flatMap_append, List.flatMap_singleton]

theorem exists_commented_concat : (∃ l ∈ lines ++ [line], Commented (rows l)) ↔
    (∃ l ∈ lines, Commented (rows l)) ∨ Commented (rows line) := by
  simp only [List.mem_append, List.mem_singleton, or_and_right, exists_or, exists_eq_left]

/-- A blank line has no pieces but blanks. -/
theorem clear_of_blank {ls : List Piece} (h : Clear line.toList ls) (hblank : strip line = "") :
    ¬ Commented ls ∧ ls.filter isToken = [] := by
  obtain ⟨rest, hrest, htrims⟩ := h.exists_trim
  have hempty : trim isBlank line.toList = [] := by
    have hlist := congrArg String.toList hblank
    rwa [strip, String.toList_ofList] at hlist
  rw [hempty] at hrest
  obtain rfl := hrest.unique clear_nil
  refine ⟨?_, htrims.filter_isToken.symm⟩
  rw [← htrims.commented_iff]
  simp [Commented]

theorem Keeps.feed (h : Keeps session rows lines c) (hline : Clear line.toList (rows line))
    (hcommand : Command.ofWord? (strip line) = none)
    (hopen : LeavesOpen (kinds (tokensOf rows (lines ++ [line])))) :
    ∃ after, c.feed line = (⟨.goesOn, ""⟩, after) ∧
      Keeps session rows (lines ++ [line]) after := by
  obtain ⟨hsession, ps, hps, hcommented, htokens, hleaves⟩ := h
  have hbegun (hcomment : Commented ps) : LeavesOpen (kinds ps) := by
    obtain ⟨l, hl, -⟩ := hcommented.mp hcomment
    exact hleaves (List.ne_nil_of_mem hl)
  by_cases hblank : strip line = ""
  · obtain ⟨hplain, hnone⟩ := clear_of_blank hline hblank
    have hsame : tokensOf rows (lines ++ [line]) = tokensOf rows lines := by
      rw [tokensOf_concat, hnone, List.append_nil]
    refine ⟨c, feed_of_blank hblank, hsession, ps, hps, ?_, fun hcomment ↦ ?_, fun _ ↦ ?_⟩
    · rw [exists_commented_concat, hcommented]
      simp [hplain]
    · rw [hsame, htokens hcomment]
    · by_cases hcomment : Commented ps
      · exact hbegun hcomment
      · rwa [hsame, ← htokens hcomment, kinds_filter_isToken] at hopen
  · obtain ⟨rs, hrs, hiff, hstopped, hjoined⟩ := exists_joined hps hline
    have hall (hcomment : ¬ Commented ps) :
        rs.filter isToken = tokensOf rows (lines ++ [line]) := by
      rw [hjoined hcomment, htokens hcomment, tokensOf_concat]
    have hrest : LeavesOpen (kinds rs) := by
      by_cases hcomment : Commented ps
      · rw [← kinds_filter_isToken, hstopped hcomment, kinds_filter_isToken]
        exact hbegun hcomment
      · rw [← kinds_filter_isToken, hall hcomment]
        exact hopen
    have hunfinished := hrs.isUnfinished_iff.mpr hrest
    refine ⟨_, feed_of_unfinished ⟨hblank, hcommand⟩ hunfinished, hsession, rs, hrs, ?_,
      fun hcomment ↦ ?_, fun _ ↦ hrest⟩
    · rw [hiff, exists_commented_concat, hcommented]
    · exact hall fun hps ↦ hcomment (hiff.mpr (.inl hps))

/-- Lines that leave a parenthesis open up to each of them are kept. -/
theorem keeps_feedAll (hfresh : c.pending = "")
    (hclear : ∀ l ∈ lines, Clear l.toList (rows l))
    (hcommands : ∀ l ∈ lines, Command.ofWord? (strip l) = none)
    (hopen : ∀ k, 0 < k → k ≤ lines.length → LeavesOpen (kinds (tokensOf rows (lines.take k)))) :
    ∃ kept, c.feedAll lines = (lines.map fun _ ↦ ⟨.goesOn, ""⟩, kept) ∧
      Keeps c.session rows lines kept := by
  induction lines using List.reverseRecOn with
  | nil =>
    have hempty : Clear c.pending.toList [] := by
      rw [hfresh]
      exact clear_nil
    exact ⟨c, rfl, rfl, [], hempty, by simp [Commented], fun _ ↦ rfl, fun h ↦ absurd rfl h⟩
  | append_singleton lines line ih =>
    obtain ⟨hclear, hline⟩ := List.forall_mem_append.mp hclear
    obtain ⟨hcommands, hcommand⟩ := List.forall_mem_append.mp hcommands
    have hbefore (k : Nat) (hpos : 0 < k) (hk : k ≤ lines.length) :
        LeavesOpen (kinds (tokensOf rows (lines.take k))) := by
      have hwhole := hopen k hpos (by simp; omega)
      rwa [List.take_append_of_le_length hk] at hwhole
    obtain ⟨kept, hfeed, hkept⟩ := ih hclear hcommands hbefore
    have hlast := hopen (lines ++ [line]).length (by simp) le_rfl
    rw [List.take_length] at hlast
    obtain ⟨after, hline, hafter⟩ :=
      hkept.feed (hline line (by simp)) (hcommand line (by simp)) hlast
    refine ⟨after, ?_, hafter⟩
    rw [feedAll_append, hfeed, List.map_append]
    simp only [feedAll, hline, List.map_cons, List.map_nil]

end

/-! ### The lines one under the other -/

theorem reads_join {a b : List Char} {qs qs' : List Piece} (ha : Reads a qs) (hb : Reads b qs') :
    Reads (a ++ '\n' :: b) (qs ++ qs') := by
  have hbreak : '\n' ∈ blanks := by decide
  obtain ⟨ps, rfl, hps, hread, rfl⟩ := ha
  obtain ⟨ps', rfl, hps', hread', rfl⟩ := hb
  refine ⟨ps ++ ofBlank hbreak :: ps', ?_, tiles_join hps hps' hbreak fun _ _ _ ↦ rfl,
    readable_join hread hread' hbreak, ?_⟩
  · rw [spell_append, spell_cons]
    rfl
  · rw [List.filter_append, List.filter_cons_of_neg (by simp [isToken, ofBlank, kind?])]

theorem reads_intercalate {rows : String → List Piece} {lines : List String}
    (h : ∀ l ∈ lines, Clear l.toList (rows l)) :
    Reads ("\n".intercalate lines).toList (tokensOf rows lines) := by
  induction lines with
  | nil => exact clear_nil.reads
  | cons line lines ih =>
    obtain ⟨hline, hlines⟩ := List.forall_mem_cons.mp h
    have ih := ih hlines
    cases lines with
    | nil => simpa [tokensOf] using hline.reads
    | cons next lines =>
      rw [String.intercalate_cons_cons]
      simpa [tokensOf] using reads_join hline.reads ih

/-- Whether the tokens of a text leave a parenthesis open shows in its pieces. -/
theorem leavesOpen_iff_of_reads {source : String} {qs : List Piece} {ts : List Token}
    (h : Reads source.toList qs) (hts : tokenize source = .ok ts) :
    LeavesOpen (ts.map Token.kind) ↔ LeavesOpen (kinds qs) := by
  obtain ⟨front, hfront, hgives⟩ := h.tokenize
  obtain rfl := Except.ok.inj (hts.symm.trans hfront)
  rw [List.map_append, map_kind_of_gives hgives]
  simp [LeavesOpen, endToken]

/-! ### The run of a statement -/

/-- What the run of a text comes to, up to the lines of a failure, shows in a reply of the console
and in the console after it. -/
inductive Shows (r : EStateM.Result Failure Machine Unit) : Reply × Console → Prop
  | completed {m : Machine} {c : Console} (hr : r = .ok () m) (hc : m.Like c.session.machine) :
    Shows r (⟨.goesOn, ""⟩, c)
  | failed {f f' : Failure} {m : Machine} {c : Console} (hr : r = .error f m)
    (hf : f.Like AnyLine f') (hc : m.Like c.session.machine) :
    Shows r (⟨(settle f' c).1, ""⟩, (settle f' c).2)

/-- A session ends a run as the work of the run ends. -/
theorem sameEnd_session_run (source : String) (start : Int) (s : Session) :
    SameEnd (fun m s' ↦ m.Like s'.machine) Eq Eq ((Session.work s.showsTree source).run s.machine)
      ((Session.run source start).run s) := by
  rw [Session.run_eq]
  cases (Session.work s.showsTree source).run s.machine with
  | ok _ m => exact .ok rfl ⟨rfl, rfl⟩
  | error f m =>
    have hmachine : (s.afterFailure source start f m).machine = { m with notices := [] } :=
      Session.continues_afterFailure.machine
    exact .error rfl ⟨by rw [hmachine], by rw [hmachine]⟩

/-- The run of one text shows where the console runs another one with the same tokens. -/
theorem shows_of_sameUpToLines {source joined : String} (h : SameUpToLines source joined)
    (start : Int) (s : Session) (before : Console) :
    Shows ((Session.work s.showsTree source).run s.machine)
      (match (Session.run joined start).run s with
      | .ok _ session => (⟨.goesOn, ""⟩, { before with session })
      | .error f session =>
        (⟨(settle f { before with session }).1, ""⟩, (settle f { before with session }).2)) := by
  have hwork := h.work s.showsTree s.machine s.machine (Machine.like_equivalence.refl _)
  have hrun := sameEnd_session_run joined start s
  generalize (Session.work s.showsTree source).run s.machine = r at hwork ⊢
  generalize (Session.work s.showsTree joined).run s.machine = r' at hwork hrun
  generalize (Session.run joined start).run s = r'' at hrun ⊢
  cases hwork with
  | ok _ hm =>
    cases hrun with
    | ok _ hm' => exact .completed rfl (Machine.like_equivalence.trans hm hm')
  | error hf hm =>
    cases hrun with
    | error hf' hm' =>
      subst hf'
      exact .failed rfl hf (Machine.like_equivalence.trans hm hm')

theorem pending_ne_empty {c : Console} {ps : List Piece} (h : Clear c.pending.toList ps)
    (hopen : LeavesOpen (kinds ps)) : c.pending ≠ "" := by
  intro hempty
  rw [hempty] at h
  obtain rfl := h.unique clear_nil
  exact absurd hopen (by decide)

theorem pending_feed_of_finished {c : Console} {line : String} (hline : IsSource line)
    (h : isUnfinished (c.extended line) = false) : (c.feed line).2.pending = "" := by
  rw [feed_of_finished hline h]
  cases (Session.run _ _).run c.session with
  | ok _ session => rfl
  | error f session => rfl

section

variable {session : Session} {rows : String → List Piece} {begun : List String} {last : String}
  {c : Console}

/-- After lines without comments at their ends, the last line of a statement runs all of it. -/
theorem Keeps.feed_last (h : Keeps session rows begun c) (hne : begun ≠ [])
    (hcommented : ∀ l ∈ begun, ¬ Commented (rows l)) (hbegun : ∀ l ∈ begun, Clear l.toList (rows l))
    (hlast : Clear last.toList (rows last)) (hcommand : Command.ofWord? (strip last) = none)
    (hclosed : ¬ LeavesOpen (kinds (tokensOf rows (begun ++ [last])))) :
    (c.feed last).2.pending = "" ∧
      Shows ((Session.work session.showsTree ("\n".intercalate (begun ++ [last]))).run
        session.machine) (c.feed last) := by
  obtain ⟨rfl, ps, hps, hiff, htokens, hleaves⟩ := h
  have hplain : ¬ Commented ps := fun hcomment ↦ by
    obtain ⟨l, hl, hline⟩ := hiff.mp hcomment
    exact hcommented l hl hline
  have hopen := hleaves hne
  rw [← kinds_filter_isToken, htokens hplain] at hopen
  have hblank : strip last ≠ "" := by
    intro hblank
    rw [tokensOf_concat, (clear_of_blank hlast hblank).2, List.append_nil] at hclosed
    exact hclosed hopen
  obtain ⟨rs, hrs, -, -, hjoined⟩ := exists_joined hps hlast
  have hall : rs.filter isToken = tokensOf rows (begun ++ [last]) := by
    rw [hjoined hplain, htokens hplain, tokensOf_concat]
  rw [← hall, kinds_filter_isToken, ← hrs.isUnfinished_iff, Bool.not_eq_true] at hclosed
  refine ⟨pending_feed_of_finished ⟨hblank, hcommand⟩ hclosed, ?_⟩
  rw [feed_of_finished ⟨hblank, hcommand⟩ hclosed]
  have hwhole : Reads ("\n".intercalate (begun ++ [last])).toList (rs.filter isToken) := by
    rw [hall]
    refine reads_intercalate (List.forall_mem_append.mpr ⟨hbegun, ?_⟩)
    simpa using hlast
  exact shows_of_sameUpToLines (sameUpToLines_of_reads hwhole hrs.reads) _ c.session _

/-- A comment at the end of a line takes the last line of the statement with it. -/
theorem Keeps.feed_commented (h : Keeps session rows begun c)
    (hcommented : ∃ l ∈ begun, Commented (rows l)) (hlast : Clear last.toList (rows last))
    (hcommand : Command.ofWord? (strip last) = none) :
    ∃ after, c.feed last = (⟨.goesOn, ""⟩, after) ∧ after.session = session ∧
      after.pending ≠ "" := by
  obtain ⟨rfl, ps, hps, hiff, -, hleaves⟩ := h
  have hne : begun ≠ [] := by
    obtain ⟨l, hl, -⟩ := hcommented
    exact List.ne_nil_of_mem hl
  have hopen := hleaves hne
  by_cases hblank : strip last = ""
  · exact ⟨c, feed_of_blank hblank, rfl, pending_ne_empty hps hopen⟩
  · obtain ⟨rs, hrs, -, hstopped, -⟩ := exists_joined hps hlast
    rw [← kinds_filter_isToken, ← hstopped (hiff.mpr hcommented), kinds_filter_isToken] at hopen
    have hunfinished := hrs.isUnfinished_iff.mpr hopen
    exact ⟨_, feed_of_unfinished ⟨hblank, hcommand⟩ hunfinished, rfl, pending_ne_empty hrs hopen⟩

end

/-- Lines that leave a parenthesis open up to each of them, and a last line that closes it. The
block comments in them count for nothing. Nothing is run before the last line. If no line before it
has a comment that goes to its end, the last line has the effect of running all lines one under the
other, and none is pending then; otherwise nothing is run at all. -/
theorem feedAll_statement {c : Console} {begun : List String} {last : String}
    {rows : String → List Piece} (hfresh : c.pending = "") (hne : begun ≠ [])
    (hcommands : ∀ l ∈ begun ++ [last], Command.ofWord? (strip l) = none)
    (hrows : ∀ l ∈ begun ++ [last], Clear l.toList (rows l))
    (hopen : ∀ k, 0 < k → k ≤ begun.length → ∃ ts,
      tokenize ("\n".intercalate (begun.take k)) = .ok ts ∧ LeavesOpen (ts.map Token.kind))
    (hclosed : ∃ ts, tokenize ("\n".intercalate (begun ++ [last])) = .ok ts ∧
      ¬ LeavesOpen (ts.map Token.kind)) :
    ∃ kept, c.feedAll begun = (begun.map fun _ ↦ ⟨.goesOn, ""⟩, kept) ∧
      kept.session = c.session ∧
      ((∀ l ∈ begun, ¬ Commented (rows l)) → (kept.feed last).2.pending = "" ∧
        Shows ((Session.work c.session.showsTree ("\n".intercalate (begun ++ [last]))).run
          c.session.machine) (kept.feed last)) ∧
      ((∃ l ∈ begun, Commented (rows l)) → ∃ after,
        kept.feed last = (⟨.goesOn, ""⟩, after) ∧ after.session = c.session ∧
          after.pending ≠ "") := by
  obtain ⟨hbegun, hlast⟩ := List.forall_mem_append.mp hrows
  obtain ⟨hcommands, hcommand⟩ := List.forall_mem_append.mp hcommands
  have hlast := hlast last (by simp)
  have hcommand := hcommand last (by simp)
  have hopen (k : Nat) (hpos : 0 < k) (hk : k ≤ begun.length) :
      LeavesOpen (kinds (tokensOf rows (begun.take k))) := by
    obtain ⟨ts, hts, hleaves⟩ := hopen k hpos hk
    have htaken : ∀ l ∈ begun.take k, Clear l.toList (rows l) :=
      fun l hl ↦ hbegun l (List.mem_of_mem_take hl)
    have hreads := reads_intercalate htaken
    exact (leavesOpen_iff_of_reads hreads hts).mp hleaves
  have hclosed : ¬ LeavesOpen (kinds (tokensOf rows (begun ++ [last]))) := by
    obtain ⟨ts, hts, hleaves⟩ := hclosed
    rwa [leavesOpen_iff_of_reads (reads_intercalate hrows) hts] at hleaves
  obtain ⟨kept, hfeed, hkept⟩ := keeps_feedAll hfresh hbegun hcommands hopen
  refine ⟨kept, hfeed, hkept.session, fun hplain ↦ ?_, fun hcommented ↦ ?_⟩
  · exact hkept.feed_last hne hplain hbegun hlast hcommand hclosed
  · exact hkept.feed_commented hcommented hlast hcommand

/-- A sum over two lines with a comment in it. -/
theorem feedAll_statement_of_sum :
    let c := new (.begin (.new true false .plain) Session.inputPath true false "") defaultPrompt
    ∃ kept, c.feedAll ["print (1 /* + */"] = ([⟨.goesOn, ""⟩], kept) ∧ kept.session = c.session ∧
      (kept.feed "+ 2);").2.pending = "" ∧
      Shows ((Session.work false ("print (1 /* + */" ++ "\n" ++ "+ 2);")).run c.session.machine)
        (kept.feed "+ 2);") := by
  intro c
  let first : List Piece := [
    ⟨.word, ['p', 'r', 'i', 'n', 't'], .word (by decide) (List.all_eq_true.mp (by decide))⟩,
    ⟨.blank, [' '], .blank (by decide)⟩, ⟨.mark .leftParen, ['('], .mark (by decide)⟩,
    ⟨.integer, ['1'], .integer (by decide) (List.all_eq_true.mp (by decide))⟩,
    ⟨.blank, [' '], .blank (by decide)⟩,
    ⟨.blockComment, '/' :: '*' :: [' ', '+', ' '] ++ ['*', '/'], .blockComment (by decide)⟩]
  let second : List Piece := [⟨.mark .plus, ['+'], .mark (by decide)⟩,
    ⟨.blank, [' '], .blank (by decide)⟩,
    ⟨.integer, ['2'], .integer (by decide) (List.all_eq_true.mp (by decide))⟩,
    ⟨.mark .rightParen, [')'], .mark (by decide)⟩, ⟨.mark .semicolon, [';'], .mark (by decide)⟩]
  let rows (l : String) : List Piece := if l = "+ 2);" then second else first
  have hrows : ∀ l ∈ ["print (1 /* + */"] ++ ["+ 2);"], Clear l.toList (rows l) := by
    decide +kernel
  have hopen : ∀ k, 0 < k → k ≤ ["print (1 /* + */"].length → ∃ ts,
      tokenize ("\n".intercalate (["print (1 /* + */"].take k)) = .ok ts ∧
        LeavesOpen (ts.map Token.kind) := by
    intro k hpos hk
    obtain rfl : k = 1 := le_antisymm hk hpos
    exact ⟨[⟨.kwPrint, "print", .nil, 1⟩, ⟨.leftParen, "(", .nil, 1⟩,
      ⟨.number, "1", .integer 1, 1⟩, ⟨.endOfText, "", .nil, 1⟩], by decide +kernel, by decide⟩
  have hclosed : ∃ ts, tokenize ("\n".intercalate (["print (1 /* + */"] ++ ["+ 2);"])) = .ok ts ∧
      ¬ LeavesOpen (ts.map Token.kind) := by
    exact ⟨[⟨.kwPrint, "print", .nil, 1⟩, ⟨.leftParen, "(", .nil, 1⟩,
      ⟨.number, "1", .integer 1, 1⟩, ⟨.plus, "+", .nil, 2⟩, ⟨.number, "2", .integer 2, 2⟩,
      ⟨.rightParen, ")", .nil, 2⟩, ⟨.semicolon, ";", .nil, 2⟩, ⟨.endOfText, "", .nil, 2⟩],
      by decide +kernel, by decide⟩
  have hplain : ∀ l ∈ ["print (1 /* + */"], ¬ Commented (rows l) := by decide +kernel
  obtain ⟨kept, hfeed, hsession, hrun, -⟩ := feedAll_statement (c := c) rfl (by simp)
    (by decide +kernel) hrows hopen hclosed
  obtain ⟨hpending, hshows⟩ := hrun hplain
  exact ⟨kept, hfeed, hsession, hpending, hshows⟩

/-- A closing parenthesis in a block comment ends the statement before its last line, and after a
line comment it never ends, although the lines one under the other are read and run. -/
theorem feed_commented_diverges :
    let c := new (.begin (.new true false .plain) Session.inputPath true false "") defaultPrompt
    (∃ ts ts', tokenize "print (1 /* ) */" = .ok ts ∧ LeavesOpen (ts.map Token.kind) ∧
        tokenize "print (1 /* ) */\n+ 2);" = .ok ts' ∧ ¬ LeavesOpen (ts'.map Token.kind)) ∧
      (c.feed "print (1 /* ) */").2.session ≠ c.session ∧
      ((run "print (1 /* ) */\n+ 2);").effect c.session.machine) = (.ok (), default, ["3"]) ∧
      (∃ ts ts', tokenize "print (1 // one" = .ok ts ∧ LeavesOpen (ts.map Token.kind) ∧
        tokenize "print (1 // one\n+ 2);" = .ok ts' ∧ ¬ LeavesOpen (ts'.map Token.kind)) ∧
      (c.feedAll ["print (1 // one", "+ 2);"]).2.pending ≠ "" ∧
      ((run "print (1 // one\n+ 2);").effect c.session.machine) = (.ok (), default, ["3"]) := by
  intro c
  have hend : tokenize "print (1 /* ) */" = .ok [⟨.kwPrint, "print", .nil, 1⟩,
      ⟨.leftParen, "(", .nil, 1⟩, ⟨.number, "1", .integer 1, 1⟩, ⟨.endOfText, "", .nil, 1⟩] := by
    decide +kernel
  have hone : tokenize "print (1 // one" = .ok [⟨.kwPrint, "print", .nil, 1⟩,
      ⟨.leftParen, "(", .nil, 1⟩, ⟨.number, "1", .integer 1, 1⟩, ⟨.endOfText, "", .nil, 1⟩] := by
    decide +kernel
  have hwhole : ∀ text ∈ ["print (1 /* ) */\n+ 2);", "print (1 // one\n+ 2);"],
      tokenize text = .ok [⟨.kwPrint, "print", .nil, 1⟩, ⟨.leftParen, "(", .nil, 1⟩,
        ⟨.number, "1", .integer 1, 1⟩, ⟨.plus, "+", .nil, 2⟩, ⟨.number, "2", .integer 2, 2⟩,
        ⟨.rightParen, ")", .nil, 2⟩, ⟨.semicolon, ";", .nil, 2⟩, ⟨.endOfText, "", .nil, 2⟩] := by
    decide +kernel
  have hreported : (c.feed "print (1 /* ) */").2.session.reporter.reported ≠
      c.session.reporter.reported := by
    decide +kernel
  exact ⟨⟨_, _, hend, by decide, hwhole _ (by simp), by decide⟩,
    fun h ↦ hreported (congrArg (fun s ↦ s.reporter.reported) h), by decide +kernel,
    ⟨_, _, hone, by decide, hwhole _ (by simp), by decide⟩, by decide +kernel, by decide +kernel⟩

end Console

end LoxLang
