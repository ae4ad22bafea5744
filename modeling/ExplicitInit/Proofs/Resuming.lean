import ExplicitInit.Proofs.Idempotence
import Mathlib.Data.List.Forall2

namespace ExplicitInit

open ClassDecl

variable {o : Options} {before : List ClassDecl}

theorem normalizeAll_cons_of_accepted {c : ClassDecl} (h : c.fault? = none) (cs : List ClassDecl) :
    normalizeAll o (c :: cs) =
      (c.normalized o :: (normalizeAll o cs).1,
        (normalizeAll o cs).2.map (c.changes o :: ·)) := by
  have hc : c.normalize o = .ok (c.normalized o, c.changes o) :=
    normalize_eq_ok_iff.mpr ⟨h, rfl, rfl⟩
  simp only [normalizeAll, hc]

theorem normalizeAll_cons_of_fault {c : ClassDecl} {fault : Fault} (h : c.fault? = some fault)
    (cs : List ClassDecl) : normalizeAll o (c :: cs) = (c :: cs, .error fault) := by
  simp only [normalizeAll, normalize_eq_error_iff.mpr h]

theorem normalizeAll_append (h : ∀ c ∈ before, c.fault? = none) (after : List ClassDecl) :
    normalizeAll o (before ++ after) =
      (before.map (normalized o) ++ (normalizeAll o after).1,
        (normalizeAll o after).2.map (before.map (changes o) ++ ·)) := by
  induction before with
  | nil => cases hr : (normalizeAll o after).2 <;> simp [← hr, Except.map]
  | cons c cs ih =>
    rw [List.cons_append, normalizeAll_cons_of_accepted (h c List.mem_cons_self),
      ih fun d hd => h d (List.mem_cons_of_mem c hd)]
    cases (normalizeAll o after).2 <;> rfl

theorem normalizeAll_of_accepted {cs : List ClassDecl} (h : ∀ c ∈ cs, c.fault? = none) :
    normalizeAll o cs = (cs.map (normalized o), .ok (cs.map (changes o))) := by
  have hrun := normalizeAll_append (o := o) h []
  rw [List.append_nil] at hrun
  simpa [normalizeAll, Except.map] using hrun

theorem normalizeAll_of_fault (h : ∀ c ∈ before, c.fault? = none) {c : ClassDecl} {fault : Fault}
    (hc : c.fault? = some fault) (after : List ClassDecl) :
    normalizeAll o (before ++ c :: after) =
      (before.map (normalized o) ++ c :: after, .error fault) := by
  rw [normalizeAll_append h, normalizeAll_cons_of_fault hc]
  rfl

theorem accepted_or_first_fault (cs : List ClassDecl) :
    (∀ c ∈ cs, c.fault? = none) ∨
      ∃ before c after fault, cs = before ++ c :: after ∧ (∀ b ∈ before, b.fault? = none) ∧
        c.fault? = some fault := by
  induction cs with
  | nil => exact .inl fun c hc => absurd hc List.not_mem_nil
  | cons d cs ih =>
    cases hd : d.fault? with
    | some fault => exact .inr ⟨[], d, cs, fault, rfl, by simp, hd⟩
    | none =>
      obtain hcs | ⟨before, c, after, fault, rfl, hbefore, hc⟩ := ih
      · exact .inl (List.forall_mem_cons.mpr ⟨hd, hcs⟩)
      · exact .inr ⟨d :: before, c, after, fault, rfl, List.forall_mem_cons.mpr ⟨hd, hbefore⟩, hc⟩

theorem normalize_normalized {c : ClassDecl} (h : c.fault? = none) :
    (c.normalized o).normalize o = .ok (c.normalized o, .zero) :=
  normalize_of_normal (isNormal_normalized h) isSettled_normalized

/-- Whatever comes after them, classes that a run has normalized may stand in place of the classes
they came from. -/
theorem normalizeAll_normalized_append (h : ∀ c ∈ before, c.fault? = none)
    (after : List ClassDecl) :
    normalizeAll o (before.map (normalized o) ++ after) =
      (before.map (normalized o) ++ (normalizeAll o after).1,
        (normalizeAll o after).2.map (List.replicate before.length .zero ++ ·)) := by
  have hagain : ∀ c ∈ before,
      (c.normalized o).fault? = none ∧ (c.normalized o).normalized o = c.normalized o ∧
        (c.normalized o).changes o = .zero :=
    fun c hc => normalize_eq_ok_iff.mp (normalize_normalized (h c hc))
  have haccepted : ∀ c ∈ before.map (normalized o), c.fault? = none := by
    simpa using fun c hc => (hagain c hc).1
  have hclasses : (before.map (normalized o)).map (normalized o) = before.map (normalized o) := by
    simpa using fun c hc => (hagain c hc).2.1
  have hsummaries : (before.map (normalized o)).map (changes o) =
      List.replicate before.length .zero := by
    simpa [List.eq_replicate_iff] using fun c hc => (hagain c hc).2.2
  rw [normalizeAll_append haccepted, hclasses, hsummaries]

structure StopsAt (o : Options) (cs : List ClassDecl) (i : Nat) (fault : Fault) : Prop where
  rejected : ∃ c, cs[i]? = some c ∧ c.normalize o = .error fault
  done : ∀ j < i, ∃ c r, cs[j]? = some c ∧ c.normalize o = .ok r ∧
    (normalizeAll o cs).1[j]? = some r.1
  untouched : (normalizeAll o cs).1.drop i = cs.drop i
  /-- A run over what is left, with the rejected class replaced, gives the classes and the verdict
  of a run from the beginning; it has nothing to report of the classes before. -/
  resumed : ∀ d,
    (normalizeAll o ((normalizeAll o cs).1.set i d)).1 = (normalizeAll o (cs.set i d)).1 ∧
      (normalizeAll o ((normalizeAll o cs).1.set i d)).2 =
        (normalizeAll o (cs.set i d)).2.map (List.replicate i .zero ++ List.drop i ·)

theorem stopsAt_of_fault (h : ∀ c ∈ before, c.fault? = none) {c : ClassDecl} {fault : Fault}
    (hc : c.fault? = some fault) (after : List ClassDecl) :
    StopsAt o (before ++ c :: after) before.length fault := by
  have hrun := normalizeAll_of_fault (o := o) h hc after
  refine ⟨⟨c, by simp, normalize_eq_error_iff.mpr hc⟩, fun j hj => ?_, ?_, fun d => ?_⟩
  · have hb : before[j].fault? = none := h _ (List.getElem_mem hj)
    refine ⟨before[j], _, ?_, normalize_eq_ok_iff.mpr ⟨hb, rfl, rfl⟩, ?_⟩
    · rw [List.getElem?_append_left hj, List.getElem?_eq_getElem hj]
    · rw [hrun, List.getElem?_append_left (by simpa using hj)]
      simp [hj]
  · simp [hrun]
  · have hset : (before ++ c :: after).set before.length d = before ++ d :: after := by simp
    have hset' : (before.map (normalized o) ++ c :: after).set before.length d =
        before.map (normalized o) ++ d :: after := by simp
    rw [hrun, hset, hset', normalizeAll_append h, normalizeAll_normalized_append h]
    refine ⟨rfl, ?_⟩
    cases (normalizeAll o (d :: after)).2 <;> simp [Except.map]

structure NormalizesEach (o : Options) (cs : List ClassDecl) : Prop where
  succeeds_iff :
    (∃ ss, (normalizeAll o cs).2 = .ok ss) ↔ ∀ c ∈ cs, ∃ r, c.normalize o = .ok r
  succeeded : ∀ ss, (normalizeAll o cs).2 = .ok ss → ss.length = cs.length ∧
    List.Forall₂ (fun c r => c.normalize o = .ok r) cs ((normalizeAll o cs).1.zip ss)
  failed : ∀ fault, (normalizeAll o cs).2 = .error fault → ∃ i, StopsAt o cs i fault

/-- A run over several classes succeeds exactly if each of them is accepted; otherwise it stops at
the first one that is not, and can be resumed there. -/
theorem normalizeAll_normalizesEach (o : Options) (cs : List ClassDecl) : NormalizesEach o cs := by
  obtain haccepted | ⟨before, c, after, fault, rfl, hbefore, hc⟩ := accepted_or_first_fault cs
  · have hrun := normalizeAll_of_accepted (o := o) haccepted
    have heach : ∀ c ∈ cs, c.normalize o = .ok (c.normalized o, c.changes o) :=
      fun c hc => normalize_eq_ok_iff.mpr ⟨haccepted c hc, rfl, rfl⟩
    refine ⟨?_, fun ss hss => ?_, fun fault hf => ?_⟩
    · exact ⟨fun _ c hc => ⟨_, heach c hc⟩, fun _ => ⟨_, congrArg Prod.snd hrun⟩⟩
    · rw [hrun] at hss ⊢
      cases hss
      refine ⟨List.length_map _, ?_⟩
      rw [List.zip_map', List.forall₂_map_right_iff, List.forall₂_same]
      exact heach
    · rw [hrun] at hf
      cases hf
  · have hrun := normalizeAll_of_fault (o := o) hbefore hc after
    have herror : c.normalize o = .error fault := normalize_eq_error_iff.mpr hc
    refine ⟨⟨fun ⟨ss, hss⟩ => ?_, fun h => ?_⟩, fun ss hss => ?_, fun fault' hf => ?_⟩
    · rw [hrun] at hss
      cases hss
    · obtain ⟨r, hr⟩ := h c (by simp)
      rw [herror] at hr
      cases hr
    · rw [hrun] at hss
      cases hss
    · rw [hrun] at hf
      cases hf
      exact ⟨_, stopsAt_of_fault hbefore hc after⟩

end ExplicitInit
