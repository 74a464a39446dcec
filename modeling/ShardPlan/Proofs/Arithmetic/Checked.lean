import Mathlib.Algebra.BigOperators.Group.List.Basic
import Mathlib.Data.List.Forall2
import ShardPlan.Arithmetic.Checked
import ShardPlan.Arithmetic.Outcome

/-! # Checked computations without a fault

A product of sizes none of which is zero is computed exactly when it fits a machine word
(`Size.product_eq_ok`), since then no partial product is larger. A computation in two parts has a value if
both parts have one (`bind_eq_ok_iff`), and a traversal if every element has (`mapM_eq_ok_iff`, and
`mapM_eq_some_iff` for one that may find nothing); `HasValue` says so where the value does not matter. -/

namespace ShardPlan

/-! ### Computations in parts -/

theorem bind_eq_ok_iff {ε α β : Type} {x : Except ε α} {f : α → Except ε β} {b : β} :
    x >>= f = .ok b ↔ ∃ a, x = .ok a ∧ f a = .ok b := by
  cases x with
  | ok a => exact ⟨fun h => ⟨a, rfl, h⟩, fun ⟨_, ha, h⟩ => Except.ok.inj ha ▸ h⟩
  | error e => exact ⟨nofun, nofun⟩

theorem bind_pure_eq_ok_iff {ε α β : Type} {x : Except ε α} {f : α → β} {b : β} :
    (x >>= fun a => pure (f a)) = .ok b ↔ ∃ a, x = .ok a ∧ b = f a := by
  rw [bind_eq_ok_iff]
  refine exists_congr fun a => and_congr_right fun _ => ?_
  exact ⟨fun h => (Except.ok.inj h).symm, fun h => congrArg Except.ok h.symm⟩

theorem ofChecked_eq_ok_iff {ε α : Type} {x : Checked α} {a : α} :
    (Outcome.ofChecked x : Outcome ε α) = .ok a ↔ x = .ok a := by
  cases x with
  | ok b =>
    exact ⟨fun h => congrArg Except.ok (Except.ok.inj h), fun h => congrArg Except.ok (Except.ok.inj h)⟩
  | error f => exact ⟨nofun, nofun⟩

theorem mapM_eq_ok_iff {ε α β : Type} {f : α → Except ε β} : ∀ {list : List α} {bs : List β},
    list.mapM f = .ok bs ↔ List.Forall₂ (fun a b => f a = .ok b) list bs
  | [], bs => by
    rw [List.forall₂_nil_left_iff]
    exact ⟨fun h => (Except.ok.inj h).symm, fun h => h ▸ rfl⟩
  | a :: list, bs => by
    rw [List.mapM_cons, List.forall₂_cons_left_iff, bind_eq_ok_iff]
    constructor
    · rintro ⟨b, hb, h⟩
      obtain ⟨rest, hrest, h⟩ := bind_eq_ok_iff.mp h
      exact ⟨b, rest, hb, mapM_eq_ok_iff.mp hrest, (Except.ok.inj h).symm⟩
    · rintro ⟨b, rest, hb, hrest, rfl⟩
      exact ⟨b, hb, by rw [mapM_eq_ok_iff.mpr hrest]; rfl⟩

theorem mapM_eq_ok {ε α β : Type} {f : α → Except ε β} {g : α → β} :
    ∀ {list : List α}, (∀ a ∈ list, f a = .ok (g a)) → list.mapM f = .ok (list.map g)
  | [], _ => rfl
  | a :: list, h => by
    obtain ⟨ha, hlist⟩ := List.forall_mem_cons.mp h
    rw [List.mapM_cons, ha, mapM_eq_ok hlist]
    rfl

theorem mem_of_forall₂ {α β : Type} {R : α → β → Prop} {list : List α} {bs : List β}
    (h : List.Forall₂ R list bs) :
    (∀ b ∈ bs, ∃ a ∈ list, R a b) ∧ ∀ a ∈ list, ∃ b ∈ bs, R a b := by
  induction h with
  | nil => exact ⟨nofun, nofun⟩
  | @cons a b list bs hab _ ih =>
    refine ⟨List.forall_mem_cons.mpr ⟨⟨a, by simp, hab⟩, fun b' hb' => ?_⟩,
      List.forall_mem_cons.mpr ⟨⟨b, by simp, hab⟩, fun a' ha' => ?_⟩⟩
    · obtain ⟨a', ha', hab'⟩ := ih.1 b' hb'
      exact ⟨a', List.mem_cons_of_mem a ha', hab'⟩
    · obtain ⟨b', hb', hab'⟩ := ih.2 a' ha'
      exact ⟨b', List.mem_cons_of_mem b hb', hab'⟩

theorem forall₂_filterMap {α β : Type} {f : α → Option β} : ∀ list : List α,
    List.Forall₂ (fun a b => a ∈ list ∧ f a = some b) (list.filter fun a => (f a).isSome)
      (list.filterMap f)
  | [] => .nil
  | a :: list => by
    have hrest := (forall₂_filterMap (f := f) list).imp
      fun a' b h => And.imp_left (List.mem_cons_of_mem a) h
    cases ha : f a with
    | none =>
      rwa [List.filter_cons_of_neg (by rw [ha]; exact Bool.false_ne_true), List.filterMap_cons_none ha]
    | some b =>
      rw [List.filter_cons_of_pos (by rw [ha]; rfl), List.filterMap_cons_some ha]
      exact .cons ⟨List.mem_cons_self, ha⟩ hrest

/-- Lists related through further elements, from which those on the right are made. -/
theorem exists_map_of_forall₂ {α β γ : Type} {R : α → γ → Prop} {f : γ → β} {list : List α} {bs : List β}
    (h : List.Forall₂ (fun a b => ∃ c, R a c ∧ b = f c) list bs) :
    ∃ cs, List.Forall₂ R list cs ∧ bs = cs.map f := by
  induction h with
  | nil => exact ⟨[], .nil, rfl⟩
  | cons hab _ ih =>
    obtain ⟨c, hc, rfl⟩ := hab
    obtain ⟨cs, hcs, rfl⟩ := ih
    exact ⟨c :: cs, .cons hc hcs, rfl⟩

theorem map_of_mapM_eq_ok {ε α β γ : Type} {f : α → Except ε β} {g : β → γ} {k : α → γ}
    (hg : ∀ {a b}, f a = .ok b → g b = k a) {list : List α} {bs : List β}
    (h : list.mapM f = .ok bs) : bs.map g = list.map k := by
  induction mapM_eq_ok_iff.mp h with
  | nil => rfl
  | cons hab _ ih =>
    obtain ⟨_, hrest⟩ := List.forall₂_cons.mp (mapM_eq_ok_iff.mp h)
    rw [List.map_cons, List.map_cons, hg hab, ih (mapM_eq_ok_iff.mpr hrest)]

/-! ### Traversals that may find nothing -/

theorem mapM_eq_some_iff {α β : Type} {f : α → Option β} : ∀ {list : List α} {bs : List β},
    list.mapM f = some bs ↔ list.map f = bs.map some
  | [], bs => by
    rw [List.map_nil, @eq_comm _ [], List.map_eq_nil_iff]
    exact ⟨fun h => (Option.some.inj h).symm, fun h => h ▸ rfl⟩
  | a :: list, bs => by
    rw [List.mapM_cons, List.map_cons, Option.bind_eq_bind, Option.bind_eq_some_iff]
    constructor
    · rintro ⟨b, hb, h⟩
      obtain ⟨rest, hrest, h⟩ := Option.bind_eq_some_iff.mp h
      cases h
      rw [hb, mapM_eq_some_iff.mp hrest, List.map_cons]
    · intro h
      cases bs with
      | nil => exact nomatch h
      | cons b bs =>
        obtain ⟨hb, hrest⟩ := List.cons.inj h
        exact ⟨b, hb, by rw [mapM_eq_some_iff.mpr hrest]; rfl⟩

theorem exists_mapM_eq_some_iff {α β : Type} {f : α → Option β} {list : List α} :
    (∃ bs, list.mapM f = some bs) ↔ ∀ a ∈ list, ∃ b, f a = some b := by
  simp only [mapM_eq_some_iff]
  constructor
  · rintro ⟨bs, hbs⟩ a ha
    have hmem : f a ∈ bs.map some := hbs ▸ List.mem_map_of_mem ha
    obtain ⟨b, -, hb⟩ := List.mem_map.mp hmem
    exact ⟨b, hb.symm⟩
  · intro h
    induction list with
    | nil => exact ⟨[], rfl⟩
    | cons a list ih =>
      obtain ⟨⟨b, hb⟩, hlist⟩ := List.forall_mem_cons.mp h
      obtain ⟨bs, hbs⟩ := ih hlist
      exact ⟨b :: bs, by rw [List.map_cons, List.map_cons, hb, hbs]⟩

/-! ### Values -/

/-- **The computation has a value.** -/
def HasValue {ε α : Type} (x : Except ε α) : Prop := ∃ a, x = .ok a

namespace HasValue

variable {ε α β : Type}

theorem ok (a : α) : HasValue (.ok a : Except ε α) := ⟨a, rfl⟩

theorem bind {x : Except ε α} {f : α → Except ε β} (hx : HasValue x)
    (hf : ∀ a, x = .ok a → HasValue (f a)) : HasValue (x >>= f) := by
  obtain ⟨a, ha⟩ := hx
  obtain ⟨b, hb⟩ := hf a ha
  exact ⟨b, bind_eq_ok_iff.mpr ⟨a, ha, hb⟩⟩

theorem bind_pure_iff {x : Except ε α} {f : α → β} :
    HasValue (x >>= fun a => pure (f a)) ↔ HasValue x := by
  constructor
  · rintro ⟨b, h⟩
    obtain ⟨a, ha, -⟩ := bind_pure_eq_ok_iff.mp h
    exact ⟨a, ha⟩
  · exact fun h => h.bind fun a _ => ok (f a)

theorem mapM {f : α → Except ε β} : ∀ {list : List α}, (∀ a ∈ list, HasValue (f a)) →
    HasValue (list.mapM f)
  | [], _ => ok []
  | a :: list, h => by
    obtain ⟨ha, hlist⟩ := List.forall_mem_cons.mp h
    rw [List.mapM_cons]
    exact ha.bind fun b _ => (mapM hlist).bind fun bs _ => ok (b :: bs)

theorem mapM_iff {f : α → Except ε β} {list : List α} :
    HasValue (list.mapM f) ↔ ∀ a ∈ list, HasValue (f a) := by
  refine ⟨?_, mapM⟩
  rintro ⟨bs, h⟩ a ha
  obtain ⟨b, -, hb⟩ := (mem_of_forall₂ (mapM_eq_ok_iff.mp h)).2 a ha
  exact ⟨b, hb⟩

end HasValue

/-! ### Products -/

namespace Size

theorem volume_eq_prod (sizes : List Nat) : volume sizes = sizes.prod := by
  induction sizes with
  | nil => rfl
  | cons n sizes ih => rw [volume, ih, List.prod_cons]

theorem pos_of_zero_notMem {sizes : List Nat} (h : 0 ∉ sizes) : ∀ n ∈ sizes, 0 < n := fun _ hn =>
  Nat.pos_of_ne_zero fun hzero => h (hzero ▸ hn)

theorem volume_pos {sizes : List Nat} (h : ∀ n ∈ sizes, 0 < n) : 0 < volume sizes := by
  induction sizes with
  | nil => exact Nat.one_pos
  | cons n sizes ih =>
    exact Nat.mul_pos (h n (by simp)) (ih fun k hk => h k (List.mem_cons_of_mem n hk))

theorem foldlM_mul_eq_ok : ∀ {sizes : List Nat} {a : Nat}, (∀ n ∈ sizes, 0 < n) →
    a * volume sizes < wordLimit → sizes.foldlM mul a = .ok (a * volume sizes)
  | [], a, _, _ => by rw [volume, Nat.mul_one]; rfl
  | n :: sizes, a, hpos, hlt => by
    have hrest : ∀ n ∈ sizes, 0 < n := fun k hk => hpos k (List.mem_cons_of_mem n hk)
    rw [volume, ← Nat.mul_assoc] at hlt ⊢
    -- no factor is zero, so the product up to here is at most the whole one
    have hle : a * n ≤ a * n * volume sizes := Nat.le_mul_of_pos_right _ (volume_pos hrest)
    rw [List.foldlM_cons, mul_eq_ok (by omega)]
    exact foldlM_mul_eq_ok hrest hlt

theorem product_eq_ok {sizes : List Nat} (hpos : ∀ n ∈ sizes, 0 < n)
    (hlt : volume sizes < wordLimit) : product sizes = .ok (volume sizes) := by
  have h := foldlM_mul_eq_ok (a := 1) hpos (by rwa [Nat.one_mul])
  rwa [Nat.one_mul] at h

theorem mul_eq_ok_iff {a b n : Nat} : mul a b = .ok n ↔ a * b < wordLimit ∧ n = a * b := by
  unfold mul
  split_ifs with hlt
  · exact ⟨fun h => ⟨hlt, (Except.ok.inj h).symm⟩, fun h => congrArg Except.ok h.2.symm⟩
  · exact ⟨nofun, fun h => absurd h.1 hlt⟩

theorem succ_eq_ok_iff {a n : Nat} : succ a = .ok n ↔ a + 1 < wordLimit ∧ n = a + 1 := by
  unfold succ
  split_ifs with hlt
  · exact ⟨fun h => ⟨hlt, (Except.ok.inj h).symm⟩, fun h => congrArg Except.ok h.2.symm⟩
  · exact ⟨nofun, fun h => absurd h.1 hlt⟩

theorem foldlM_mul_hasValue_of_le {small large : List Nat} (h : List.Forall₂ (· ≤ ·) small large) :
    ∀ {a b : Nat}, a ≤ b → HasValue (large.foldlM mul b) → HasValue (small.foldlM mul a) := by
  induction h with
  | nil => exact fun _ _ => .ok _
  | @cons m n small large hmn _ ih =>
    rintro a b hab ⟨product, hproduct⟩
    have hle : a * m ≤ b * n := Nat.mul_le_mul hab hmn
    rw [List.foldlM_cons] at hproduct ⊢
    obtain ⟨_, hmul, hproduct⟩ := bind_eq_ok_iff.mp hproduct
    obtain ⟨hlt, rfl⟩ := mul_eq_ok_iff.mp hmul
    rw [mul_eq_ok (by omega)]
    exact ih hle ⟨product, hproduct⟩

/-- **Smaller sizes** have a product if larger ones have, since every partial product is smaller. -/
theorem product_hasValue_of_le {small large : List Nat} (h : List.Forall₂ (· ≤ ·) small large)
    (hlarge : HasValue (product large)) : HasValue (product small) :=
  foldlM_mul_hasValue_of_le h (Nat.le_refl 1) hlarge

end Size

end ShardPlan
