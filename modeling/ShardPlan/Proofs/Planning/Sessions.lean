import ShardPlan.Proofs.Planning.Committed

/-! # Telling what happens

A session that keeps a log writes the text of every event. The texts of what a registration tells are written
if the dimensions that the layouts of its candidates split can be counted (`Site.Tells.text_hasValue`), and a
session that writes whatever has a text (`Session.CanTell`) then never fails to tell it. Both the silent
session and the one that keeps a log are such sessions. -/

namespace ShardPlan

/-- **A layout whose dimensions can be counted** in a machine word, on the axes of a mesh. -/
def Layout.IsCountable (l : Layout) (mesh : Mesh) : Prop := ∃ rank < wordLimit, l.Within rank mesh

/-- The layouts of all candidates can be counted. -/
def Handler.IsCountable (handler : Handler) (mesh : Mesh) : Prop :=
  ∀ {strategies}, handler.candidates = .ok strategies →
    ∀ s ∈ strategies, ∀ e ∈ s.layouts, e.2.IsCountable mesh

theorem Layout.IsCountable.sequence_hasValue {l : Layout} {mesh : Mesh} (h : l.IsCountable mesh)
    (rank : Nat) : HasValue (l.sequence rank) := by
  obtain ⟨bound, hbound, hl⟩ := h
  exact hl.sequence_hasValue hbound rank

/-- **What a registration tells has a text.** -/
theorem Site.Tells.text_hasValue {site : Site} {handler : Handler} {event : Event}
    (h : site.Tells handler event) (hcountable : handler.IsCountable site.mesh) :
    HasValue event.text := by
  cases h with
  | generated name count => exact .ok _
  | deadEnd rejected => exact .ok _
  | committed count => exact .ok _
  | rejecting hcandidates hs hmisfit =>
    obtain ⟨e, he, t, violation, -, -, rfl⟩ := findMisfit_eq_some hmisfit
    have hsequence := (hcountable hcandidates _ hs e he).sequence_hasValue t.shape.length
    have hmessage : HasValue (Refusal.misfit site.node.label e.1.name e.2 t.shape violation).message :=
      hsequence.bind fun _ _ => .ok _
    exact hmessage.bind fun _ _ => .ok _

section Running

variable {m : Type → Type} [Monad m] [MonadExceptOf (Failure Refusal) m] [Runs m]

/-- **A session that tells every event that has a text.** -/
def Session.CanTell (session : Session m) : Prop :=
  ∀ {event e}, HasValue event.text → ¬ CanEnd (session.note event) (.error e)

theorem Session.silent_canTell (oracle : Oracle m) : (Session.silent oracle).CanTell :=
  fun _ => Runs.not_canEnd_pure_error

end Running

theorem Session.logging_canTell (oracle : Oracle Live) : (Session.logging oracle).CanTell := by
  intro event e htext hnote
  obtain ⟨text, htext⟩ := htext
  have hraised : (Outcome.ofChecked event.text : Planned String) = .ok text := by rw [htext]; rfl
  obtain ⟨diary, diary', hrun⟩ := hnote.of_raise_bind hraised
  -- the log grows whatever the diary is
  exact nomatch congrArg Prod.fst hrun

/-- The session that asks `oracle`, with or without a log. -/
def Session.live : Bool → Oracle Live → Session Live
  | true, oracle => .logging oracle
  | false, oracle => .silent oracle

theorem Session.live_canTell (logged : Bool) (oracle : Oracle Live) :
    (Session.live logged oracle).CanTell := by
  cases logged with
  | true => exact logging_canTell oracle
  | false => exact silent_canTell oracle

theorem Session.ask_live (logged : Bool) (oracle : Oracle Live) :
    (Session.live logged oracle).ask = oracle := by
  cases logged with
  | true => rfl
  | false => rfl

end ShardPlan
