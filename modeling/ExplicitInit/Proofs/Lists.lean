import Mathlib.Data.List.Forall2

namespace ExplicitInit

variable {α β : Type}

theorem forM_eq_ok_iff {ε : Type} {f : α → Except ε Unit} {xs : List α} :
    xs.forM f = .ok () ↔ ∀ x ∈ xs, f x = .ok () := by
  induction xs with
  | nil => exact ⟨fun _ _ hx => (nomatch hx), fun _ => rfl⟩
  | cons x xs ih =>
    change (f x >>= fun _ => xs.forM f) = .ok () ↔ _
    rw [List.forall_mem_cons, ← ih]
    cases hx : f x with
    | error fault => simp [bind, Except.bind]
    | ok u => simp [bind, Except.bind]

theorem mapM_id_some (as : List α) : (as.map some).mapM id = some as := by
  have h : as.mapM (fun a => (pure a : Option α)) = pure (as.map id) := List.mapM_pure
  rw [List.map_id] at h
  rw [List.mapM_map]
  exact h

theorem findSome?_zipIdx_eq_some_iff {f : α × Nat → Option β} {xs : List α} {b : β} :
    xs.zipIdx.findSome? f = some b ↔ ∃ i x, xs[i]? = some x ∧ f (x, i) = some b ∧
      ∀ j y, j < i → xs[j]? = some y → f (y, j) = none := by
  rw [List.findSome?_eq_some_iff]
  constructor
  · rintro ⟨before, ⟨x, i⟩, after, hs, hf, hbefore⟩
    obtain ⟨xs₁, xs₂, rfl, rfl, h₂⟩ := List.zipIdx_eq_append_iff.mp hs
    cases xs₂ with
    | nil => cases h₂
    | cons y xs₂ =>
      obtain ⟨hx, -⟩ := List.cons.inj h₂
      obtain ⟨rfl, rfl⟩ := Prod.mk.inj hx
      refine ⟨_, x, by simp, hf, fun j z hj hz => hbefore _ ?_⟩
      rw [List.getElem?_append_left (by omega)] at hz
      exact List.mk_mem_zipIdx_iff_getElem?.mpr hz
  · rintro ⟨i, x, hi, hf, hbefore⟩
    obtain ⟨hlt, rfl⟩ := List.getElem?_eq_some_iff.mp hi
    refine ⟨(xs.take i).zipIdx, (xs[i], i), (xs.drop (i + 1)).zipIdx (i + 1), ?_, hf, ?_⟩
    · refine List.zipIdx_eq_append_iff.mpr
        ⟨xs.take i, xs.drop i, (List.take_append_drop i xs).symm, rfl, ?_⟩
      rw [List.drop_eq_getElem_cons hlt, List.zipIdx_cons]
      simp [Nat.min_eq_left (Nat.le_of_lt hlt)]
    · rintro ⟨y, j⟩ hy
      have hget := List.mk_mem_zipIdx_iff_getElem?.mp hy
      rw [List.getElem?_take] at hget
      split at hget
      · exact hbefore j y (by assumption) hget
      · cases hget

section Pointwise

variable {R : α → β → Prop}

theorem forall₂_getElem? {xs : List α} {ys : List β}
    (h : List.Forall₂ R xs ys) (i : Nat) :
    (xs[i]? = none ∧ ys[i]? = none) ∨ ∃ x y, xs[i]? = some x ∧ ys[i]? = some y ∧ R x y := by
  induction h generalizing i with
  | nil => exact .inl ⟨rfl, rfl⟩
  | cons hxy _ ih =>
    cases i with
    | zero => exact .inr ⟨_, _, rfl, rfl, hxy⟩
    | succ i => simpa using ih i

theorem forall₂_filter_filterMap {p : α → Bool} {f : α → Option β} {xs : List α}
    (hkept : ∀ a ∈ xs, p a = true → ∃ b, f a = some b ∧ R a b)
    (hgone : ∀ a ∈ xs, p a = false → f a = none) :
    List.Forall₂ R (xs.filter p) (xs.filterMap f) := by
  induction xs with
  | nil => exact .nil
  | cons a xs ih =>
    have hrest := ih (fun b hb => hkept b (List.mem_cons_of_mem _ hb))
      fun b hb => hgone b (List.mem_cons_of_mem _ hb)
    cases ha : p a with
    | true =>
      obtain ⟨b, hb, hr⟩ := hkept a List.mem_cons_self ha
      rw [List.filter_cons_of_pos ha, List.filterMap_cons_some hb]
      exact .cons hr hrest
    | false =>
      rw [List.filter_cons_of_neg (by simp [ha]),
        List.filterMap_cons_none (hgone a List.mem_cons_self ha)]
      exact hrest

theorem exists_append_of_forall₂ {xs ys : List α} {zs : List β}
    (h : List.Forall₂ R (xs ++ ys) zs) :
    ∃ xs' ys', zs = xs' ++ ys' ∧ List.Forall₂ R xs xs' ∧ List.Forall₂ R ys ys' := by
  induction xs generalizing zs with
  | nil => exact ⟨[], zs, rfl, .nil, h⟩
  | cons x xs ih =>
    obtain ⟨z, zs', hr, hrest, rfl⟩ := List.forall₂_cons_left_iff.mp h
    obtain ⟨xs', ys', rfl, hx, hy⟩ := ih hrest
    exact ⟨z :: xs', ys', rfl, .cons hr hx, hy⟩

end Pointwise

section Sublists

variable {moved before after declared rest : List α} {x : α}

theorem sublist_of_middle (hd : x ∉ declared) (hr : x ∉ rest)
    (h : (before ++ x :: after).Sublist (declared ++ x :: rest)) :
    before.Sublist declared ∧ after.Sublist rest := by
  induction declared generalizing before with
  | nil =>
    cases before with
    | nil => exact ⟨List.nil_sublist _, List.cons_sublist_cons.mp h⟩
    -- Something in front of the middle leaves no room for the middle itself.
    | cons y before => exact absurd (h.tail.subset (by simp)) hr
  | cons y declared ih =>
    have hd' : x ∉ declared := fun hx => hd (List.mem_cons_of_mem y hx)
    rcases List.sublist_cons_iff.mp h with h | ⟨later, hl, h⟩
    · obtain ⟨hb, ha⟩ := ih hd' h
      exact ⟨hb.cons y, ha⟩
    · cases before with
      | nil =>
        obtain ⟨rfl, _⟩ := List.cons.inj hl
        exact absurd List.mem_cons_self hd
      | cons z before =>
        obtain ⟨rfl, rfl⟩ := List.cons.inj hl
        obtain ⟨hb, ha⟩ := ih hd' h
        exact ⟨hb.cons_cons z, ha⟩

/-- What is inserted takes its place in the order exactly if nothing behind it was moved before. -/
theorem sublist_insert_iff (hb : before.Sublist declared) (ha : after.Sublist rest)
    (hn : (declared ++ rest).Nodup) (hx : x ∉ declared ++ rest) :
    (moved ++ (before ++ x :: after)).Sublist (declared ++ x :: rest) ↔
      (moved ++ (before ++ after)).Sublist (declared ++ rest) ∧ ∀ y ∈ rest, y ∉ moved := by
  obtain ⟨hxd, hxr⟩ := not_or.mp fun h => hx (List.mem_append.mpr h)
  have hdisjoint : ∀ y ∈ declared, y ∉ rest :=
    fun y hy hy' => (List.nodup_append.mp hn).2.2 y hy y hy' rfl
  rw [← List.append_assoc, ← List.append_assoc]
  constructor
  · intro h
    obtain ⟨hm, hafter⟩ := sublist_of_middle hxd hxr h
    refine ⟨hm.append hafter, fun y hy hmoved => ?_⟩
    exact hdisjoint y (hm.subset (List.mem_append_left _ hmoved)) hy
  · rintro ⟨h, hbehind⟩
    have hm : (moved ++ before).Sublist declared := by
      refine List.Sublist.of_sublist_append_left (fun y hy => ?_)
        ((List.sublist_append_left _ after).trans h)
      rcases List.mem_append.mp hy with hy | hy
      · exact fun hr => hbehind y hr hy
      · exact hdisjoint y (hb.subset hy)
    exact hm.append (ha.cons_cons x)

end Sublists

end ExplicitInit
