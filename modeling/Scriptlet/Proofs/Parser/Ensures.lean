import Scriptlet.Proofs.Parser.Trace

set_option autoImplicit false

/-!
# What holds when a step has a result

Component: the parser.  Specification: section 4.2; the rules below follow its steps one by one.

`Ensures` is a judgement of traced steps from one state: if all calls that happen in it are among
some calls, then the step only goes forward, and if it has a result then something holds of that and
of the state where it stops.  With all calls of a parse for the calls, this says where in the
account what has been read was read.

There is one rule for each of the smallest steps, and one for each way to put steps together.

The judgement has a precondition on the calls and not on the state.  That is because what is shown
with it is about the places at which calls happen in an account, and it must be possible to weaken
it: a production ensures more if more is known of the calls inside of it.  `Ensures.call` is the
rule that uses this, and it is the only one at which a call comes in.

A proof with these rules has the shape of the production: one rule for each of its steps, in order,
and two branches where it decides.
-/

namespace Scriptlet

namespace Traced

variable {α β : Type} {happening : Call → Prop}

/-- Whether a step from a state goes forward, and what holds when it has a result, given that the
calls in it are among some calls. -/
def Ensures (happening : Call → Prop) (traced : Traced α) (state : ParseState)
    (post : α → ParseState → Prop) : Prop :=
  (∀ above call, Happens (.called call) above (traced state).events → happening call) →
    (traced state).stop.Follows state ∧
      ∀ result, (traced state).result = some result → post result (traced state).stop

namespace Ensures

variable {traced other : Traced α} {next : α → Traced β} {state : ParseState}
  {post post' : α → ParseState → Prop} {final : β → ParseState → Prop}

/-- What holds may be weakened, for states that are further on. -/
theorem mono (h : Ensures happening traced state post)
    (hpost : ∀ result stop, stop.Follows state → post result stop → post' result stop) :
    Ensures happening traced state post' := by
  intro hcalls
  obtain ⟨hfollows, hresult⟩ := h hcalls
  exact ⟨hfollows, fun result heq => hpost result _ hfollows (hresult result heq)⟩

/-- What the run itself shows besides. -/
theorem and (other : α → ParseState → Prop) (h : Ensures happening traced state post)
    (hother : ∀ result, (traced state).result = some result → other result (traced state).stop) :
    Ensures happening traced state fun result stop => post result stop ∧ other result stop := by
  intro hcalls
  obtain ⟨hfollows, hpost⟩ := h hcalls
  exact ⟨hfollows, fun result heq => ⟨hpost result heq, hother result heq⟩⟩

/-! ### The smallest steps -/

/-- A result that is given without reading. -/
theorem pure {result : α} (h : post result state) :
    Ensures happening (Pure.pure result) state post := by
  refine fun _ => ⟨.refl state, fun final hfinal => ?_⟩
  cases hfinal
  exact h

/-- A production without budget has no result. -/
theorem exhausted : Ensures happening Traced.exhausted state post :=
  fun _ => ⟨.refl state, fun _ hfinal => nomatch hfinal⟩

/-- Nor has a fault. -/
theorem fault (token : Token) (reason : SyntaxFault) :
    Ensures happening (liftM (Parse.fault token reason : Parse α)) state post := by
  unfold Ensures
  rw [run_fault]
  exact fun _ => ⟨.refl state, fun _ hfinal => nomatch hfinal⟩

/-- A step that goes on elsewhere. -/
theorem skip {traced rest : Traced β} {middle : ParseState} (h : traced state = rest middle)
    (hfollows : middle.Follows state) (hrest : Ensures happening rest middle final) :
    Ensures happening traced state final := by
  intro hcalls
  rw [h] at hcalls ⊢
  obtain ⟨hfollows', hresult⟩ := hrest hcalls
  exact ⟨hfollows'.trans hfollows, hresult⟩

/-- The current token is looked at. -/
theorem current {next : Token → Traced β} (h : Ensures happening (next state.current) state final) :
    Ensures happening (liftM Parse.current >>= next) state final :=
  skip (run_current next state) (.refl state) h

theorem peekKind {next : TokenKind → Traced β}
    (h : Ensures happening (next state.peek.kind) state final) :
    Ensures happening (liftM Parse.peekKind >>= next) state final :=
  skip (run_peekKind next state) (.refl state) h

/-- The next token is read, whatever it is. -/
theorem advance {next : Unit → Traced β} (h : Ensures happening (next ()) state.advance final) :
    Ensures happening (liftM Parse.advance >>= next) state final :=
  skip (run_advance next state) state.follows_advance h

theorem spanFrom {first : Token} {next : Span → Traced β}
    (h : Ensures happening (next (first.span.cover state.current.span)) state final) :
    Ensures happening (liftM (Parse.spanFrom first) >>= next) state final :=
  skip (run_spanFrom first next state) (.refl state) h

/-- A semicolon is read if there is one, and both ways have to be followed. -/
theorem skipSemicolon {next : Unit → Traced β}
    (h : state.peek.kind = .semicolon → Ensures happening (next ()) state.advance final)
    (h' : state.peek.kind ≠ .semicolon → Ensures happening (next ()) state final) :
    Ensures happening (liftM Parse.skipSemicolon >>= next) state final := by
  have hrun := run_skipSemicolon next state
  by_cases hkind : state.peek.kind = .semicolon
  · rw [if_pos hkind] at hrun
    exact skip hrun state.follows_advance (h hkind)
  · rw [if_neg hkind] at hrun
    exact skip hrun (.refl state) (h' hkind)

/-- Behind an expectation the token is known to be of the wanted kind. -/
theorem expect {wanted : TokenKind} {next : Unit → Traced β}
    (h : state.peek.kind = wanted → Ensures happening (next ()) state.advance final) :
    Ensures happening (liftM (Parse.expect wanted) >>= next) state final := by
  by_cases hkind : state.peek.kind = wanted
  · exact skip (run_expect next hkind) state.follows_advance (h hkind)
  · unfold Ensures
    rw [run_expect_of_ne next hkind]
    exact fun _ => ⟨.refl state, fun _ hfinal => nomatch hfinal⟩

/-- Behind a requirement the part is known to be there. -/
theorem require {result : Option α}
    (h : ∀ value, result = some value → Ensures happening (next value) state final) :
    Ensures happening (liftM (Parse.require result) >>= next) state final := by
  cases result with
  | none =>
    unfold Ensures
    rw [run_require_none]
    exact fun _ => ⟨.refl state, fun _ hfinal => nomatch hfinal⟩
  | some value => exact skip (run_require value next state) (.refl state) (h value rfl)

/-- The part that is required is the result. -/
theorem required {result : Option α} (h : ∀ value, result = some value → post value state) :
    Ensures happening (liftM (Parse.require result)) state post := by
  unfold Ensures
  rw [run_required]
  exact fun _ => ⟨.refl state, h⟩

/-! ### Steps that are put together -/

/-- Both branches of a decision, each with what it knows. -/
theorem ite {condition : Prop} [Decidable condition]
    (h : condition → Ensures happening traced state post)
    (h' : ¬ condition → Ensures happening other state post) :
    Ensures happening (if condition then traced else other) state post := by
  by_cases hcondition : condition
  · rw [if_pos hcondition]
    exact h hcondition
  · rw [if_neg hcondition]
    exact h' hcondition

/-- One step after another: what the first ensures is what the second may use. -/
theorem bind (h : Ensures happening traced state post)
    (hnext : ∀ result middle, middle.Follows state → post result middle →
      Ensures happening (next result) middle final) :
    Ensures happening (traced >>= next) state final := by
  intro hcalls
  cases hrun : traced state with
  | mk result middle events =>
    unfold Ensures at h
    rw [hrun] at h
    cases result with
    | none =>
      have hrun := bind_of_none next hrun
      rw [hrun] at hcalls ⊢
      exact ⟨(h hcalls).1, fun _ hfinal => nomatch hfinal⟩
    | some result =>
      have hrun := bind_of_some next hrun
      rw [hrun] at hcalls ⊢
      obtain ⟨hfollows, hpost⟩ :=
        h fun above call happens => hcalls above call (Happens.append.mpr (.inl happens))
      obtain ⟨hfollows', hfinal⟩ := hnext result middle hfollows (hpost result rfl)
        fun above call happens => hcalls above call (Happens.append.mpr (.inr happens))
      exact ⟨hfollows'.trans hfollows, hfinal⟩

/-- What is attempted may have failed when the next step is taken. -/
theorem attempt {next : Option α → Traced β} (h : Ensures happening traced state post)
    (hnext : ∀ (result : Option α) middle, middle.Follows state →
      (∀ value, result = some value → post value middle) →
      Ensures happening (next result) middle final) :
    Ensures happening (Traced.attempt traced >>= next) state final := by
  have hattempt : Ensures happening (Traced.attempt traced) state
      fun result stop => ∀ value, result = some value → post value stop := by
    intro hcalls
    obtain ⟨hfollows, hpost⟩ := h hcalls
    refine ⟨hfollows, fun result hresult value hvalue => hpost value ?_⟩
    cases hresult
    exact hvalue
  exact hattempt.bind hnext

/-- A call that has a result happens. -/
theorem call {production : Production} {body : Traced production.Tree}
    {post : production.Tree → ParseState → Prop} (h : Ensures happening body state post) :
    Ensures happening (Traced.call production body) state fun tree stop =>
      post tree stop ∧ ∃ events, happening ⟨production, state, stop, some tree, events⟩ := by
  intro hcalls
  have hcall := hcalls [] _ (.here List.mem_cons_self)
  obtain ⟨hfollows, hpost⟩ :=
    h fun above call happens => hcalls _ call (.inside List.mem_cons_self happens)
  refine ⟨hfollows, fun tree htree => ⟨hpost tree htree, (body state).events, ?_⟩⟩
  change (body state).result = some tree at htree
  rw [← htree]
  exact hcall

/-- A call ensures what its body does, if it does not matter that it is one. -/
theorem called {production : Production} {body : Traced production.Tree}
    {post : production.Tree → ParseState → Prop} (h : Ensures happening body state post) :
    Ensures happening (Traced.call production body) state post :=
  h.call.mono fun _ _ _ hpost => hpost.1

end Ensures

end Traced

end Scriptlet
