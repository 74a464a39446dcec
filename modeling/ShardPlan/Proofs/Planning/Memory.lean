import Mathlib.Data.Finset.Card
import ShardPlan.Proofs.Planning.Sessions
import ShardPlan.Proofs.Planning.Simulation

/-! # Remembered answers

An oracle that remembers gives a known answer again, and asks the oracle behind it otherwise
(`Oracle.run_remembered`). So what it remembers are answers of that oracle (`Memory.IsTrueTo`), whatever it is
used for, and runs with it do the same as runs that ask the oracle behind it every time
(`Oracle.transparent`). -/

namespace ShardPlan

namespace Oracle

/-- The answer of an oracle to a query. -/
def answer {m : Type → Type} (oracle : Oracle m) (q : Query) : m Transition :=
  oracle q.tensor q.source q.target

/-- The oracle that asks `inner` each question every time. -/
def lifted (inner : Oracle Planned) : Oracle Live := fun t source target => raise (inner t source target)

/-- **The answers that are remembered** are those of an oracle. -/
def Memory.IsTrueTo (memory : Memory) (inner : Oracle Planned) : Prop :=
  ∀ (q : Query) tr, memory[q]? = some tr → inner.answer q = .ok tr

theorem Memory.isTrueTo_empty (inner : Oracle Planned) : Memory.IsTrueTo {} inner := by
  intro q tr h
  rw [Std.HashMap.getElem?_empty] at h
  exact nomatch h

/-- A later memory keeps what a memory has. -/
def Memory.Keeps (memory memory' : Memory) : Prop :=
  ∀ {q : Query} {tr : Transition}, memory[q]? = some tr → memory'[q]? = some tr

/-! ### Single questions -/

/-- **Asking an oracle that remembers**: a known answer is given again; otherwise the oracle behind it is asked,
and its answer, if it has one, is remembered. -/
theorem run_remembered (inner : Oracle Planned) (q : Query) (diary : Diary) :
    ((remembered inner).answer q).run.run diary = match diary.memory[q]? with
      | some tr => (.ok tr, diary)
      | none => match inner.answer q with
        | .ok tr => (.ok tr, { diary with memory := diary.memory.insert q tr })
        | .error e => (.error e, diary) := by
  obtain ⟨t, source, target⟩ := q
  have hget : (get : Live Memory).run.run diary = (.ok diary.memory, diary) := rfl
  unfold answer remembered remembering
  dsimp only
  rw [run_bind, hget]
  dsimp only
  cases diary.memory[(⟨t, source, target⟩ : Query)]? with
  | some tr => rfl
  | none =>
    cases hanswer : inner t source target with
    | ok tr => rfl
    | error e => rfl

theorem mem_run_remembered {inner : Oracle Planned} {q q' : Query} {diary : Diary} :
    q' ∈ (((remembered inner).answer q).run.run diary).2.memory ↔
      q' ∈ diary.memory ∨ q' = q ∧ (inner.answer q).isOk = true := by
  rw [run_remembered]
  cases hknown : diary.memory[q]? with
  | some tr =>
    have hmem : q ∈ diary.memory := Std.HashMap.mem_iff_isSome_getElem?.mpr (by rw [hknown]; rfl)
    refine ⟨.inl, ?_⟩
    rintro (h | ⟨rfl, -⟩)
    · exact h
    · exact hmem
  | none =>
    cases hanswer : inner.answer q with
    | ok tr =>
      have hinsert : q' ∈ diary.memory.insert q tr ↔ q = q' ∨ q' ∈ diary.memory := by
        rw [Std.HashMap.mem_insert, beq_iff_eq]
      refine hinsert.trans ⟨?_, ?_⟩
      · rintro (rfl | h)
        · exact .inr ⟨rfl, rfl⟩
        · exact .inl h
      · rintro (h | ⟨rfl, -⟩)
        · exact .inr h
        · exact .inl rfl
    | error e =>
      refine ⟨.inl, ?_⟩
      rintro (h | ⟨-, h⟩)
      · exact h
      · exact nomatch h

/-! ### Runs that do the same -/

/-- **How a run with a memory follows one without**: both end with the same outcome and the same log, and the
memory keeps what it has and stays true. -/
structure Follows (inner : Oracle Planned) (diary : Diary) {α : Type}
    (last last' : Planned α × Diary) : Prop where
  outcome_eq : last.1 = last'.1
  log_eq : last.2.log = last'.2.log
  isTrueTo : last.2.memory.IsTrueTo inner
  keeps : diary.memory.Keeps last.2.memory

theorem Follows.trans {inner : Oracle Planned} {diary : Diary} {α β : Type}
    {mid mid' : Planned α × Diary} {last last' : Planned β × Diary} (h : Follows inner diary mid mid')
    (h' : Follows inner mid.2 last last') : Follows inner diary last last' :=
  ⟨h'.outcome_eq, h'.log_eq, h'.isTrueTo, fun hq => h'.keeps (h.keeps hq)⟩

/-- **Runs that ask an oracle that remembers** and runs that ask the one behind it do the same. -/
def transparent (inner : Oracle Planned) : Simulation Live Live where
  Rel x y := ∀ diary diary' : Diary, diary.memory.IsTrueTo inner → diary.log = diary'.log →
    Follows inner diary (x.run.run diary) (y.run.run diary')
  pure a := fun _ _ htrue hlog => ⟨rfl, hlog, htrue, id⟩
  throw e := fun _ _ htrue hlog => ⟨rfl, hlog, htrue, id⟩
  bind {α β x y f g} hx hf := by
    intro diary diary' htrue hlog
    have hmid := hx diary diary' htrue hlog
    rw [run_bind, run_bind]
    generalize x.run.run diary = end₁, y.run.run diary' = end₂ at hmid ⊢
    obtain ⟨o, mid⟩ := end₁
    obtain ⟨o', mid'⟩ := end₂
    cases hmid.outcome_eq
    cases o with
    | ok a => exact hmid.trans (hf a mid mid' hmid.isTrueTo hmid.log_eq)
    | error e => exact ⟨rfl, hmid.log_eq, hmid.isTrueTo, hmid.keeps⟩
  tryCatch {α x y f g} hx hf := by
    intro diary diary' htrue hlog
    have hmid := hx diary diary' htrue hlog
    rw [run_tryCatch, run_tryCatch]
    generalize x.run.run diary = end₁, y.run.run diary' = end₂ at hmid ⊢
    obtain ⟨o, mid⟩ := end₁
    obtain ⟨o', mid'⟩ := end₂
    cases hmid.outcome_eq
    cases o with
    | ok a => exact hmid
    | error e => exact hmid.trans (hf e mid mid' hmid.isTrueTo hmid.log_eq)

theorem run_lifted (inner : Oracle Planned) (q : Query) (diary : Diary) :
    ((lifted inner).answer q).run.run diary = (inner.answer q, diary) := by
  have hraise : ∀ x : Planned Transition, (raise x : Live Transition).run.run diary = (x, diary)
    | .ok _ => rfl
    | .error _ => rfl
  exact hraise (inner.answer q)

theorem transparent_ask (inner : Oracle Planned) (q : Query) :
    (transparent inner).Rel ((remembered inner).answer q) ((lifted inner).answer q) := by
  intro diary diary' htrue hlog
  rw [run_lifted, run_remembered]
  cases hknown : diary.memory[q]? with
  | some tr => exact ⟨(htrue q tr hknown).symm, hlog, htrue, id⟩
  | none =>
    cases hanswer : inner.answer q with
    | error e => exact ⟨rfl, hlog, htrue, id⟩
    | ok tr =>
      refine ⟨rfl, hlog, fun q' tr' h => ?_, fun {q' tr'} h => ?_⟩
      · rw [Std.HashMap.getElem?_insert] at h
        split at h
        · rename_i heq
          cases h
          rwa [← eq_of_beq heq]
        · exact htrue q' tr' h
      · have hne : (q == q') = false := by
          rw [beq_eq_false_iff_ne]
          rintro rfl
          exact nomatch hknown.symm.trans h
        rw [Std.HashMap.getElem?_insert, hne]
        exact h

end Oracle

/-- **A session that remembers** does the same as one that asks every time. -/
theorem Session.live_transparent (logged : Bool) (inner : Oracle Planned) :
    (Oracle.transparent inner).Sessions (.live logged (.remembered inner))
      (.live logged (.lifted inner)) := by
  cases logged with
  | false => exact ⟨fun t source target => Oracle.transparent_ask inner ⟨t, source, target⟩,
      fun event => (Oracle.transparent inner).pure ()⟩
  | true =>
    refine ⟨fun t source target => Oracle.transparent_ask inner ⟨t, source, target⟩, fun event => ?_⟩
    refine (Oracle.transparent inner).bind ((Oracle.transparent inner).raise _) fun text => ?_
    intro diary diary' htrue hlog
    exact ⟨rfl, congrArg (List.cons (event.severity, text)) hlog, htrue, id⟩

/-! ### Many uses -/

/-- What the oracle of a session is used for. -/
inductive Use where
  | query (q : Oracle.Query)
  | plan (planner : Planner) (graph : Graph)

namespace Session

/-- What a use of a session leaves in the diary. -/
def leave (session : Session Live) (diary : Diary) : Use → Diary
  | .query q => ((session.ask.answer q).run.run diary).2
  | .plan planner graph => ((planner.plan session graph).run.run diary).2

/-- The diary after some uses of a session, one after the other. -/
def after (session : Session Live) (diary : Diary) (uses : List Use) : Diary :=
  uses.foldl session.leave diary

theorem after_append (session : Session Live) (diary : Diary) (uses uses' : List Use) :
    session.after diary (uses ++ uses') = session.after (session.after diary uses) uses' :=
  List.foldl_append

variable (logged : Bool) (inner : Oracle Planned)

theorem leave_follows {diary : Diary} (htrue : diary.memory.IsTrueTo inner) (use : Use) :
    (leave (.live logged (.remembered inner)) diary use).memory.IsTrueTo inner ∧
      diary.memory.Keeps (leave (.live logged (.remembered inner)) diary use).memory := by
  have hsessions := live_transparent logged inner
  cases use with
  | query q =>
    have h := hsessions.ask q.tensor q.source q.target diary diary htrue rfl
    exact ⟨h.isTrueTo, h.keeps⟩
  | plan planner graph =>
    have h := Simulation.plan hsessions planner graph diary diary htrue rfl
    exact ⟨h.isTrueTo, h.keeps⟩

theorem after_follows (uses : List Use) : ∀ {diary : Diary}, diary.memory.IsTrueTo inner →
    (after (.live logged (.remembered inner)) diary uses).memory.IsTrueTo inner ∧
      diary.memory.Keeps (after (.live logged (.remembered inner)) diary uses).memory := by
  induction uses with
  | nil => exact fun htrue => ⟨htrue, id⟩
  | cons use uses ih =>
    intro diary htrue
    obtain ⟨hleft, hkept⟩ := leave_follows logged inner htrue use
    obtain ⟨hafter, hkept'⟩ := ih hleft
    exact ⟨hafter, fun h => hkept' (hkept h)⟩

theorem mem_after (queries : List Oracle.Query) {q : Oracle.Query} : ∀ {diary : Diary},
    q ∈ (after (.live logged (.remembered inner)) diary (queries.map .query)).memory ↔
      q ∈ diary.memory ∨ q ∈ queries ∧ (inner.answer q).isOk = true := by
  induction queries with
  | nil => exact fun {diary} => ⟨.inl, fun h => h.resolve_right nofun⟩
  | cons first queries ih =>
    intro diary
    have hfirst : q ∈ (leave (.live logged (.remembered inner)) diary (.query first)).memory ↔
        q ∈ diary.memory ∨ q = first ∧ (inner.answer first).isOk = true := by
      unfold leave
      rw [ask_live]
      exact Oracle.mem_run_remembered
    refine ih.trans ?_
    rw [hfirst, List.mem_cons]
    constructor
    · rintro ((h | ⟨rfl, h⟩) | ⟨hq, h⟩)
      · exact .inl h
      · exact .inr ⟨.inl rfl, h⟩
      · exact .inr ⟨.inr hq, h⟩
    · rintro (h | ⟨rfl | hq, h⟩)
      · exact .inl (.inl h)
      · exact .inl (.inr ⟨rfl, h⟩)
      · exact .inr ⟨hq, h⟩

/-- **As many answers are remembered** as there were different questions with an answer. -/
theorem size_after (queries : List Oracle.Query) :
    (after (.live logged (.remembered inner)) {} (queries.map .query)).memory.size =
      (queries.filter fun q => (inner.answer q).isOk).toFinset.card := by
  rw [← Std.HashMap.length_keys, ← List.toFinset_card_of_nodup Std.HashMap.nodup_keys]
  congr 1
  ext q
  rw [List.mem_toFinset, List.mem_toFinset, Std.HashMap.mem_keys, mem_after, List.mem_filter]
  exact or_iff_right Std.HashMap.not_mem_empty

/-- **What an oracle remembers cannot be told from what it answers.** Whatever an oracle has been asked and
whatever has been planned with it, a question gets the answer of the oracle behind it; an answer that is
remembered stays; as many are remembered as there were different questions with an answer; and a plan has the
outcome and the log that it has with the oracle behind it. -/
theorem remembered_transparent (logged : Bool) (inner : Oracle Planned) (uses : List Use) :
    let session := Session.live logged (.remembered inner)
    let diary := session.after {} uses
    (∀ q, (((Oracle.remembered inner).answer q).run.run diary).1 = inner.answer q) ∧
    (∀ uses' (q : Oracle.Query) tr, diary.memory[q]? = some tr →
      (session.after {} (uses ++ uses')).memory[q]? = some tr) ∧
    (∀ queries : List Oracle.Query, (session.after {} (queries.map .query)).memory.size =
      (queries.filter fun q => (inner.answer q).isOk).toFinset.card) ∧
    ∀ (planner : Planner) graph,
      let remembering := (planner.plan session graph).run.run diary
      let asking := (planner.plan (.live logged (.lifted inner)) graph).run.run diary
      remembering.1 = asking.1 ∧ remembering.2.log = asking.2.log := by
  have hnone : ({} : Diary).memory.IsTrueTo inner := Oracle.Memory.isTrueTo_empty inner
  have htrue := (after_follows logged inner uses hnone).1
  refine ⟨fun q => ?_, fun uses' q tr h => ?_, size_after logged inner, fun planner graph => ?_⟩
  · have h := Oracle.transparent_ask inner q _ _ htrue rfl
    rw [Oracle.run_lifted] at h
    exact h.outcome_eq
  · rw [after_append]
    exact (after_follows logged inner uses' htrue).2 h
  · have h := Simulation.plan (live_transparent logged inner) planner graph _ _ htrue rfl
    exact ⟨h.outcome_eq, h.log_eq⟩

/-- A question has an answer, which is still there after another question. -/
theorem remembered_transparent_of_questions :
    let inner : Oracle Planned := Oracle.constant .zero
    let session := Session.live false (.remembered inner)
    let q : Oracle.Query := ⟨⟨[8], .f32⟩, .replicated, .replicated⟩
    let q' : Oracle.Query := ⟨⟨[16], .f32⟩, .replicated, .replicated⟩
    (session.after {} [.query q]).memory[q]? = some ⟨.zero, []⟩ ∧
      (session.after {} [.query q, .query q']).memory[q]? = some ⟨.zero, []⟩ := by
  intro inner session q q'
  have hempty : ({} : Diary).memory[q]? = none := Std.HashMap.getElem?_empty
  have hfirst : (session.after {} [.query q]).memory[q]? = some ⟨.zero, []⟩ := by
    change (((Oracle.remembered inner).answer q).run.run {}).2.memory[q]? = _
    rw [Oracle.run_remembered, hempty]
    exact Std.HashMap.getElem?_insert_self
  exact ⟨hfirst, (remembered_transparent false inner [.query q]).2.1 [.query q'] q _ hfirst⟩

end Session

end ShardPlan
