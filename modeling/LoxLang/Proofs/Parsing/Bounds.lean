import LoxLang.Tree.Parsing

/-!
Parsers on as many tokens as a bound covers.

Two parsers agree up to a bound if they do the same on every feed that it covers (`Agree`). The
relation passes through `>>=`, and after a token was taken a bound that is smaller by one is enough
(`Agree.accept?`, `Agree.bind_of_consumes`).
-/

set_option autoImplicit false
set_option relaxedAutoImplicit false

namespace LoxLang.Parser

open Token.Kind

variable {α β : Type}

/-! ### Single steps -/

theorem run_isFinished_cons (before : List Token) (t : Token) (ts : List Token) :
    isFinished.run ⟨before, t :: ts⟩ = .ok (decide (t.kind = endOfText)) ⟨before, t :: ts⟩ := rfl

theorem run_nextIs_cons (kind : Token.Kind) (before : List Token) (t : Token) (ts : List Token) :
    (nextIs kind).run ⟨before, t :: ts⟩ =
      .ok (decide (t.kind ≠ endOfText ∧ t.kind = kind)) ⟨before, t :: ts⟩ := by
  rw [nextIs, EStateM.run_bind, run_isFinished_cons]
  by_cases ht : t.kind = endOfText
  · simp [ht]
  · simp only [ht, decide_false, ne_eq, not_false_eq_true, true_and]
    rfl

/-- The token before the position behind a token is that token. -/
theorem run_take_cons {t : Token} (h : t.kind ≠ endOfText) (before ts : List Token) :
    take.run ⟨before, t :: ts⟩ = .ok t ⟨t :: before, ts⟩ := by
  rw [take, EStateM.run_bind, run_isFinished_cons, decide_eq_false h]
  rfl

theorem run_accept?_cons (kinds : List Token.Kind) (before : List Token) (t : Token)
    (ts : List Token) :
    (accept? kinds).run ⟨before, t :: ts⟩ =
      if t.kind ≠ endOfText ∧ t.kind ∈ kinds then .ok (some t) ⟨t :: before, ts⟩
      else .ok none ⟨before, t :: ts⟩ := by
  induction kinds with
  | nil => simp [accept?]
  | cons kind kinds ih =>
    rw [accept?, EStateM.run_bind, run_nextIs_cons]
    by_cases ht : t.kind ≠ endOfText ∧ t.kind = kind
    · have hmem : t.kind ≠ endOfText ∧ t.kind ∈ kind :: kinds :=
        ⟨ht.1, ht.2 ▸ List.mem_cons_self⟩
      rw [decide_eq_true ht, if_pos hmem]
      dsimp only
      rw [if_pos rfl, EStateM.run_bind, run_take_cons ht.1]
      rfl
    · have hmem : (t.kind ≠ endOfText ∧ t.kind ∈ kind :: kinds) ↔
          t.kind ≠ endOfText ∧ t.kind ∈ kinds :=
        ⟨fun h ↦ ⟨h.1, (List.mem_cons.mp h.2).resolve_left fun heq ↦ ht ⟨h.1, heq⟩⟩,
          fun h ↦ ⟨h.1, List.mem_cons_of_mem kind h.2⟩⟩
      rw [decide_eq_false ht]
      simp only [hmem]
      exact ih

theorem run_require_cons (kind : Token.Kind) (wording : String) (fault : Diagnostic.GrammarFault)
    (before : List Token) (t : Token) (ts : List Token) :
    (require kind wording fault).run ⟨before, t :: ts⟩ =
      if t.kind ≠ endOfText ∧ t.kind = kind then .ok t ⟨t :: before, ts⟩
      else (fail fault t wording
        (if fault = .expectedToken then requiredLexeme? kind else none)).run ⟨before, t :: ts⟩ := by
  rw [require, EStateM.run_bind, run_nextIs_cons]
  by_cases ht : t.kind ≠ endOfText ∧ t.kind = kind
  · rw [decide_eq_true ht, if_pos ht]
    exact run_take_cons ht.1 before ts
  · rw [decide_eq_false ht, if_neg ht]
    rfl

theorem discard_eq_bind (p : Parser α) : discard p = (do let _ ← p; return ()) := by
  simp [discard, Functor.discard, map_const]

/-! ### Parsers that need a token -/

/-- Where no token is left, the parser runs out of tokens. -/
def Starves (p : Parser α) : Prop :=
  ∀ before, p.run ⟨before, []⟩ = .error (.mishap .tokensExhausted) ⟨before, []⟩

theorem Starves.bind {p : Parser α} (h : Starves p) (f : α → Parser β) : Starves (p >>= f) := by
  intro before
  simp [h before]

theorem starves_exhausted : Starves (exhausted : Parser α) := fun _ ↦ rfl

theorem starves_next : Starves next := fun _ ↦ rfl

theorem starves_accept? {kinds : List Token.Kind} (h : kinds ≠ []) : Starves (accept? kinds) := by
  intro before
  obtain ⟨k, ks, rfl⟩ := List.exists_cons_of_ne_nil h
  rfl

theorem starves_require (kind : Token.Kind) (wording : String) (fault : Diagnostic.GrammarFault) :
    Starves (require kind wording fault) :=
  fun _ ↦ rfl

/-! ### Agreement up to a bound -/

/-- On at most `m` tokens the parsers do the same, and they leave no more tokens than there were. -/
def Agree (m : Nat) (p q : Parser α) : Prop :=
  ∀ feed : Feed, feed.rest.length ≤ m → p.run feed = q.run feed ∧
    ∀ a after, p.run feed = .ok a after → after.rest.length ≤ feed.rest.length

namespace Agree

theorem mono {k m : Nat} {p q : Parser α} (h : Agree m p q) (hk : k ≤ m) : Agree k p q :=
  fun feed hfeed ↦ h feed (Nat.le_trans hfeed hk)

theorem symm {m : Nat} {p q : Parser α} (h : Agree m p q) : Agree m q p := by
  intro feed hfeed
  obtain ⟨heq, hshrinks⟩ := h feed hfeed
  exact ⟨heq.symm, fun a after ha ↦ hshrinks a after (heq.trans ha)⟩

theorem trans {m : Nat} {p q r : Parser α} (h : Agree m p q) (h' : Agree m q r) :
    Agree m p r := by
  intro feed hfeed
  obtain ⟨heq, hshrinks⟩ := h feed hfeed
  exact ⟨heq.trans (h' feed hfeed).1, hshrinks⟩

theorem pure (m : Nat) (a : α) : Agree m (Pure.pure a : Parser α) (Pure.pure a) := by
  intro feed _
  refine ⟨rfl, fun b after h ↦ ?_⟩
  obtain ⟨-, rfl⟩ : a = b ∧ feed = after := by simpa using h
  exact Nat.le_refl _

theorem of_error {m : Nat} {p : Parser α} (h : ∀ feed a after, p.run feed ≠ .ok a after) :
    Agree m p p :=
  fun feed _ ↦ ⟨rfl, fun a after ha ↦ absurd ha (h feed a after)⟩

theorem bind {m : Nat} {p q : Parser α} {f g : α → Parser β} (h : Agree m p q)
    (hfg : ∀ a, Agree m (f a) (g a)) : Agree m (p >>= f) (q >>= g) := by
  intro feed hm
  obtain ⟨heq, hshrinks⟩ := h feed hm
  simp only [EStateM.run_bind, ← heq]
  cases hp : p.run feed with
  | error e after => simp
  | ok a after =>
    have hle := hshrinks a after hp
    obtain ⟨heq', hshrinks'⟩ := hfg a after (by omega)
    exact ⟨heq', fun b last hb ↦ Nat.le_trans (hshrinks' b last hb) hle⟩

theorem of_starves {p q : Parser α} (hp : Starves p) (hq : Starves q) : Agree 0 p q := by
  rintro ⟨before, rest⟩ hm
  obtain rfl : rest = [] := List.length_eq_zero_iff.mp (Nat.le_zero.mp hm)
  rw [hp before, hq before]
  exact ⟨rfl, fun a after h ↦ by simp at h⟩

/-- After a token was taken, one token fewer is left to agree on. -/
theorem accept? {m : Nat} {kinds : List Token.Kind} (hk : kinds ≠ [])
    {f g : Option Token → Parser α} (hsome : ∀ t, Agree m (f (some t)) (g (some t)))
    (hnone : Agree (m + 1) (f none) (g none)) :
    Agree (m + 1) (Parser.accept? kinds >>= f) (Parser.accept? kinds >>= g) := by
  rintro ⟨before, rest⟩ hm
  cases rest with
  | nil => simp [starves_accept? hk before]
  | cons t ts =>
    simp only [EStateM.run_bind, run_accept?_cons]
    by_cases ht : t.kind ≠ endOfText ∧ t.kind ∈ kinds
    · rw [if_pos ht]
      obtain ⟨heq, hshrinks⟩ := hsome t ⟨t :: before, ts⟩ (Nat.le_of_succ_le_succ hm)
      exact ⟨heq, fun a after ha ↦ Nat.le_succ_of_le (hshrinks a after ha)⟩
    · rw [if_neg ht]
      exact hnone ⟨before, t :: ts⟩ hm

theorem bounded {m : Nat} {p : Parser α} {q : Nat → Parser α}
    (h : ∀ k ≤ m, Agree k p (q k)) : Agree m p (Parser.bounded q) :=
  fun feed hfeed ↦ h feed.rest.length hfeed feed (Nat.le_refl _)

end Agree

theorem Agree.discard {m : Nat} {p q : Parser α} (h : Agree m p q) :
    Agree m (discard p) (discard q) := by
  rw [discard_eq_bind, discard_eq_bind]
  exact h.bind fun _ ↦ .pure m ()

/-! ### Parsers that take tokens -/

/-- The parser leaves no more tokens than there were. -/
def Shrinks (p : Parser α) : Prop :=
  ∀ m, Agree m p p

theorem shrinks_pure (a : α) : Shrinks (pure a : Parser α) :=
  fun m ↦ .pure m a

/-- The parser takes a token or fails. -/
def Consumes (p : Parser α) : Prop :=
  ∀ feed a after, p.run feed = .ok a after → after.rest.length < feed.rest.length

theorem consumes_require (kind : Token.Kind) (wording : String) (fault : Diagnostic.GrammarFault) :
    Consumes (require kind wording fault) := by
  rintro ⟨before, rest⟩ a after h
  cases rest with
  | nil =>
    rw [starves_require kind wording fault before] at h
    cases h
  | cons t ts =>
    rw [run_require_cons] at h
    split at h
    · obtain ⟨-, rfl⟩ : t = a ∧ (⟨t :: before, ts⟩ : Feed) = after := by simpa using h
      simp
    · cases h

theorem Consumes.shrinks {p : Parser α} (h : Consumes p) : Shrinks p :=
  fun _ feed _ ↦ ⟨rfl, fun a after ha ↦ Nat.le_of_lt (h feed a after ha)⟩

theorem Consumes.bind {p : Parser α} {f : α → Parser β} (h : Consumes p)
    (hf : ∀ a, Shrinks (f a)) : Consumes (p >>= f) := by
  intro feed b last hb
  rw [EStateM.run_bind] at hb
  cases hp : p.run feed with
  | error e after => simp [hp] at hb
  | ok a after =>
    rw [hp] at hb
    exact Nat.lt_of_le_of_lt ((hf a _ after (Nat.le_refl _)).2 b last hb) (h feed a after hp)

theorem Shrinks.bind_consumes {p : Parser α} {f : α → Parser β} (hp : Shrinks p)
    (h : ∀ a, Consumes (f a)) : Consumes (p >>= f) := by
  intro feed b last hb
  rw [EStateM.run_bind] at hb
  cases ha : p.run feed with
  | error e after => simp [ha] at hb
  | ok a after =>
    rw [ha] at hb
    exact Nat.lt_of_lt_of_le (h a after b last hb) ((hp _ feed (Nat.le_refl _)).2 a after ha)

theorem Consumes.discard {p : Parser α} (h : Consumes p) : Consumes (discard p) := by
  rw [discard_eq_bind]
  exact h.bind fun _ ↦ shrinks_pure ()

theorem Consumes.accept? {kinds : List Token.Kind} (hk : kinds ≠ []) {f : Option Token → Parser α}
    (hsome : ∀ t, Shrinks (f (some t))) (hnone : Consumes (f none)) :
    Consumes (Parser.accept? kinds >>= f) := by
  rintro ⟨before, rest⟩ a after h
  cases rest with
  | nil =>
    rw [(starves_accept? hk).bind f before] at h
    cases h
  | cons t ts =>
    simp only [EStateM.run_bind, run_accept?_cons] at h
    by_cases ht : t.kind ≠ endOfText ∧ t.kind ∈ kinds
    · rw [if_pos ht] at h
      exact Nat.lt_succ_of_le ((hsome t _ ⟨t :: before, ts⟩ (Nat.le_refl _)).2 a after h)
    · rw [if_neg ht] at h
      exact hnone ⟨before, t :: ts⟩ a after h

/-- One token more is covered by a bound after a parser that takes a token. -/
theorem Agree.bind_of_consumes {m : Nat} {p : Parser α} {f g : α → Parser β} (h : Consumes p)
    (hfg : ∀ a, Agree m (f a) (g a)) : Agree (m + 1) (p >>= f) (p >>= g) := by
  intro feed hm
  simp only [EStateM.run_bind]
  cases hp : p.run feed with
  | error e after => simp
  | ok a after =>
    have hlt := h feed a after hp
    obtain ⟨heq, hshrinks⟩ := hfg a after (by omega)
    exact ⟨heq, fun b last hb ↦ Nat.le_trans (hshrinks b last hb) (Nat.le_of_lt hlt)⟩

theorem bounded_eq {p : Nat → Parser α} {q : Parser α} (h : ∀ m, Agree m (p m) q) :
    bounded p = q :=
  funext fun feed ↦ (h feed.rest.length feed (Nat.le_refl _)).1

end LoxLang.Parser
