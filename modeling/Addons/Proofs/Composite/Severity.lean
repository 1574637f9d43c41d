import Addons.Proofs.Composite.Health

/-!
# The worst component

What a composite shows is the worst of what its components show, in whatever order and groups they come
(`Rollup.status_worst`): each component has a type of its own (`Rollup.ownType`), one more component makes the type of
the composite the worse of two (`Rollup.type_cons`), and `StatusType.worse` is associative and commutative.
-/

namespace Addons

namespace StatusType

/-- How bad a type is. A component that is ready is as good as one that is available, and a composite is never
called ready. -/
def severity : StatusType → Nat
  | .ready => 0
  | .available => 1
  | .progressing => 2
  | .degraded => 3
  | .unhealthy => 4

/-- The worse of two types. -/
def worse (t t' : StatusType) : StatusType := if t'.severity ≤ t.severity then t else t'

variable (t t' t'' : StatusType)

theorem severity_injective : Function.Injective severity := by
  intro t t' h
  cases t <;> cases t' <;> first | rfl | cases h

theorem severity_worse : (worse t t').severity = max t.severity t'.severity := by
  unfold worse
  split <;> omega

theorem worse_comm : worse t t' = worse t' t := by
  apply severity_injective
  rw [severity_worse, severity_worse]
  omega

theorem worse_assoc : worse (worse t t') t'' = worse t (worse t' t'') := by
  apply severity_injective
  simp only [severity_worse]
  omega

end StatusType

namespace Rollup

open StatusType (worse severity)

variable {now : Instant} {c : ComponentHealth} {cs xs ys : List ComponentHealth} {t : StatusType}

/-- The type that one component brings in; one without a status is waited for. -/
def ownType (c : ComponentHealth) : StatusType := (c.2.map Status.type).getD .progressing

theorem first?_cons_none (t : StatusType) (name : String) (cs : List ComponentHealth) :
    first? t ((name, none) :: cs) = first? t cs := rfl

theorem first?_cons_some (t : StatusType) (name : String) (s : Status) (cs : List ComponentHealth) :
    first? t ((name, some s) :: cs) = if s.type = t then some (name, s) else first? t cs := by
  by_cases h : s.type = t <;> simp [first?, h]

theorem pending_cons (c : ComponentHealth) (cs : List ComponentHealth) :
    pending (c :: cs) = if isUp c then pending cs else c.1 :: pending cs := by
  cases h : isUp c <;> simp [pending, h]

/-- One more component makes it the worse of two. -/
theorem type_cons (now : Instant) (c : ComponentHealth) (cs : List ComponentHealth) :
    (status now (c :: cs)).type = worse (ownType c) (status now cs).type := by
  obtain ⟨name, s⟩ := c
  unfold status
  cases s with
  | none =>
    simp only [first?_cons_none, pending_cons]
    cases first? .unhealthy cs <;> cases first? .degraded cs <;> cases pending cs <;> rfl
  | some s =>
    obtain ⟨type, time, reason, message⟩ := s
    simp only [first?_cons_some, pending_cons]
    cases type <;> cases first? .unhealthy cs <;> cases first? .degraded cs <;> cases pending cs <;> rfl

/-! ## Folding -/

/-- The worst of some types, and available where there are none. -/
def worstOf (ts : List StatusType) : StatusType := ts.foldr worse .available

theorem available_le_worstOf (ts : List StatusType) : StatusType.available.severity ≤ (worstOf ts).severity := by
  induction ts with
  | nil => exact le_rfl
  | cons t ts ih =>
    show _ ≤ (worse t (worstOf ts)).severity
    rw [StatusType.severity_worse]
    omega

theorem worstOf_append (ts ts' : List StatusType) : worstOf (ts ++ ts') = worse (worstOf ts) (worstOf ts') := by
  induction ts with
  | nil =>
    apply StatusType.severity_injective
    have hle := available_le_worstOf ts'
    show (worstOf ts').severity = (worse .available (worstOf ts')).severity
    rw [StatusType.severity_worse]
    omega
  | cons t ts ih =>
    show worse t (worstOf (ts ++ ts')) = worse (worse t (worstOf ts)) (worstOf ts')
    rw [ih, StatusType.worse_assoc]

/-- The health of a composite is a fold over its components. -/
theorem type_status (now : Instant) (cs : List ComponentHealth) :
    (status now cs).type = worstOf (cs.map ownType) := by
  induction cs with
  | nil => rfl
  | cons c cs ih =>
    rw [type_cons, ih]
    rfl

theorem type_append (now : Instant) (xs ys : List ComponentHealth) :
    (status now (xs ++ ys)).type = worse (status now xs).type (status now ys).type := by
  simp only [type_status, List.map_append, worstOf_append]

theorem type_perm (now : Instant) (h : xs.Perm ys) : (status now xs).type = (status now ys).type := by
  induction h with
  | nil => rfl
  | cons c _ ih => rw [type_cons, type_cons, ih]
  | swap c d cs =>
    simp only [type_cons]
    rw [← StatusType.worse_assoc, ← StatusType.worse_assoc, StatusType.worse_comm (ownType d)]
  | trans _ _ ih ih' => exact ih.trans ih'

theorem type_flatten (now : Instant) (groups : List (List ComponentHealth)) :
    (status now groups.flatten).type = worstOf (groups.map fun g => (status now g).type) := by
  induction groups with
  | nil => rfl
  | cons g groups ih =>
    rw [List.flatten_cons, type_append, ih]
    rfl

/-- A composite is no better with one more component. -/
theorem severity_insert (now : Instant) (xs ys : List ComponentHealth) (c : ComponentHealth) :
    severity (status now (xs ++ ys)).type ≤ severity (status now (xs ++ c :: ys)).type := by
  rw [type_perm now List.perm_middle, type_cons, StatusType.severity_worse]
  omega

/-! ## The message -/

/-- The message of a composite names the components that make it what it is: the first of the worst ones, or, while
there is nothing worse than waiting, all that are waited for, in their order. -/
structure Names (cs : List ComponentHealth) (s : Status) : Prop where
  worst : s.type = .unhealthy ∨ s.type = .degraded → ∃ before name shown after,
    cs = before ++ (name, some shown) :: after ∧ shown.type = s.type
      ∧ (∀ c ∈ before, severity (ownType c) < severity s.type) ∧ s.message = s!"{name}: {shown.message}"
  waiting : s.type = .progressing →
    s.message = "waiting for " ++ ", ".intercalate ((cs.filter fun c => !isUp c).map Prod.fst)

theorem severity_ownType_le (now : Instant) (h : c ∈ cs) : severity (ownType c) ≤ severity (status now cs).type := by
  obtain ⟨before, after, rfl⟩ := List.append_of_mem h
  rw [type_perm now List.perm_middle, type_cons, StatusType.severity_worse]
  omega

/-- The component that is found for a type is the first that has it. -/
theorem first?_eq_some {name : String} {shown : Status} (h : first? t cs = some (name, shown)) :
    ∃ before after, cs = before ++ (name, some shown) :: after ∧ shown.type = t
      ∧ ∀ c ∈ before, ¬Shows t c := by
  obtain ⟨before, c, after, rfl, hfound, hbefore⟩ := List.findSome?_eq_some_iff.1 h
  obtain ⟨name', s⟩ := c
  cases s with
  | none => cases hfound
  | some s =>
    by_cases ht : s.type = t
    · obtain ⟨rfl, rfl⟩ : name' = name ∧ s = shown := by simpa [ht] using hfound
      exact ⟨before, after, rfl, ht, first?_eq_none.1 (List.findSome?_eq_none_iff.2 hbefore)⟩
    · simp [ht] at hfound

theorem shows_of_ownType (h : ownType c = t) (hne : t ≠ .progressing) : Shows t c := by
  unfold ownType at h
  cases hs : c.2 with
  | none =>
    rw [hs] at h
    exact absurd h.symm hne
  | some s =>
    rw [hs] at h
    exact ⟨s, hs, h⟩

/-- A component that is found for the type of the composite is the first of the worst. -/
theorem names_of_first? {found : String × Status} (hfound : first? t cs = some found) (hne : t ≠ .progressing)
    (htype : (status now cs).type = t) (hmessage : (status now cs).message = s!"{found.1}: {found.2.message}") :
    Names cs (status now cs) := by
  obtain ⟨before, after, hcs, hshown, hnone⟩ := first?_eq_some hfound
  have hlt : ∀ c ∈ before, severity (ownType c) < severity t := by
    intro c hc
    have hle := severity_ownType_le now (show c ∈ cs by simp [hcs, hc])
    rw [htype] at hle
    refine lt_of_le_of_ne hle fun heq => ?_
    exact hnone c hc (shows_of_ownType (StatusType.severity_injective heq) hne)
  subst htype
  exact ⟨fun _ => ⟨before, found.1, found.2, after, hcs, hshown, hlt, hmessage⟩, fun h => absurd h hne⟩

theorem names_status (now : Instant) (cs : List ComponentHealth) : Names cs (status now cs) := by
  cases hunhealthy : first? .unhealthy cs with
  | some found =>
    have hstatus : status now cs = .unhealthy now "ComponentUnhealthy" s!"{found.1}: {found.2.message}" := by
      simp only [status, hunhealthy]
    exact names_of_first? hunhealthy (by decide) (by rw [hstatus]; rfl) (by rw [hstatus]; rfl)
  | none =>
    cases hdegraded : first? .degraded cs with
    | some found =>
      have hstatus : status now cs = .degraded now "ComponentDegraded" s!"{found.1}: {found.2.message}" := by
        simp only [status, hunhealthy, hdegraded]
      exact names_of_first? hdegraded (by decide) (by rw [hstatus]; rfl) (by rw [hstatus]; rfl)
    | none =>
      cases hpending : pending cs with
      | nil =>
        simp only [status, hunhealthy, hdegraded, hpending]
        exact ⟨fun h => (by rcases h with h | h <;> cases h), fun h => nomatch h⟩
      | cons name names =>
        simp only [status, hunhealthy, hdegraded, hpending]
        refine ⟨fun h => (by rcases h with h | h <;> cases h), fun _ => ?_⟩
        rw [show (cs.filter fun c => !isUp c).map Prod.fst = name :: names from hpending]
        rfl

namespace Platform

def shown (type : StatusType) (message : String) : Status := ⟨type, default, "", message⟩

def starting : List ComponentHealth :=
  [("HelmAddon/metrics", some (shown .ready "")), ("IssuerAddon/acme", none)]

def failing : List ComponentHealth :=
  [("ManifestAddon/dns", some (shown .degraded "bad url")), ("ManifestAddon/web", some (shown .unhealthy "boom"))]

def groups : List (String × List ComponentHealth) := [("late", failing), ("early", starting)]

end Platform

end Rollup

end Addons
