import Addons.Workload.Health
import Addons.Proofs.Store.Journal
import Addons.Proofs.Store.Outcome
import Addons.Proofs.Workload.Verdicts

/-!
# The health of what is in the store

A check of the tracked objects asks for one workload after the other and for no change (`Health.looks_check`). What it
comes to is the aggregate of the workloads as they are in the store, in the order in which they are tracked.
-/

namespace Addons

namespace KnownKind

theorem find?_eq_some {group kind : String} {k : KnownKind} (h : find? group kind = some k) :
    k ∈ all ∧ k.group = group ∧ k.kind = kind :=
  ⟨List.mem_of_find?_eq_some h, by simpa using List.find?_some h⟩

/-- The workloads among the known kinds are two of the apps group. -/
theorem workload_of_mem : ∀ k ∈ all, ∀ w, k.workload = some w → k.group = "apps" ∧ k.kind = w.name := by
  decide

end KnownKind

theorem Tracked.workload?_eq_some_iff {t : Tracked} {w : Workload} :
    t.workload? = some w ↔ t.group = "apps" ∧ t.kind = w.name := by
  constructor
  · intro h
    obtain ⟨k, hfind, hw⟩ := Option.bind_eq_some_iff.1 h
    obtain ⟨hmem, hgroup, hkind⟩ := KnownKind.find?_eq_some hfind
    rw [← hgroup, ← hkind]
    exact KnownKind.workload_of_mem k hmem w hw
  · rintro ⟨hgroup, hkind⟩
    unfold workload?
    rw [hgroup, hkind]
    cases w <;> decide

/-! ## Sessions that only look -/

namespace Session

variable {α β : Type} {m : Memory} {P Q : α → Prop}

/-- Whatever comes of a session, it asks for no change and leaves the store as it is, and its result is of a
kind. -/
def Looks (s : Session α) (m : Memory) (P : α → Prop) : Prop :=
  ∀ es r m', s.Runs m es r m' →
    es = [] ∧ m'.objects = m.objects ∧ m'.journal = m.journal ∧ ∀ a, r = .ok a → P a

theorem Looks.imp {s : Session α} (h : s.Looks m P) (hPQ : ∀ a, P a → Q a) : s.Looks m Q := by
  intro es r m' hrun
  obtain ⟨hes, hobjects, hjournal, hr⟩ := h es r m' hrun
  exact ⟨hes, hobjects, hjournal, fun a ha => hPQ a (hr a ha)⟩

theorem looks_pure {a : α} (h : P a) : (pure a : Session α).Looks m P := by
  rintro es r m' ⟨rfl, rfl, rfl⟩
  refine ⟨rfl, rfl, rfl, ?_⟩
  rintro _ ⟨rfl⟩
  exact h

theorem looks_lift {x : Except Error α} (h : ∀ a, x = .ok a → P a) : (liftM x : Session α).Looks m P := by
  cases x with
  | ok a => exact looks_pure (h a rfl)
  | error e =>
    rintro es r m' ⟨rfl, rfl, rfl⟩
    exact ⟨rfl, rfl, rfl, nofun⟩

theorem looks_find? (k : Key) : (Session.find? k).Looks m fun o? => m.object? k = o? := by
  intro es r m' hrun
  obtain ⟨rfl, hobjects, hr⟩ := runs_find? hrun
  have hnoted : m.Noted (fun _ _ => True) [] m' := does_find? k [] r m' hrun
  exact ⟨rfl, hobjects, hnoted.journal_eq, hr⟩

theorem Looks.bind {s : Session α} {f : α → Session β} {R : β → Prop} (h : s.Looks m P)
    (hf : ∀ a (m₁ : Memory), m₁.objects = m.objects → P a → (f a).Looks m₁ R) : (s >>= f).Looks m R := by
  intro es r m' hrun
  rcases runs_bind.1 hrun with ⟨a, m₁, es₁, es₂, h₁, rfl, h₂⟩ | ⟨e, h₁, rfl⟩
  · obtain ⟨rfl, hobjects, hjournal, ha⟩ := h es₁ _ m₁ h₁
    obtain ⟨rfl, hobjects', hjournal', hr⟩ := hf a m₁ hobjects (ha a rfl) es₂ r m' h₂
    exact ⟨rfl, hobjects'.trans hobjects, hjournal'.trans hjournal, hr⟩
  · obtain ⟨rfl, hobjects, hjournal, -⟩ := h es _ m' h₁
    exact ⟨rfl, hobjects, hjournal, nofun⟩

end Session

/-! ## Workloads in the store -/

namespace Health

/-- The tracked objects that are workloads of a kind. -/
def workloads (w : Workload) (tracked : List Tracked) : List Tracked :=
  tracked.filter fun t => t.group = "apps" ∧ t.kind = w.name

theorem workloads_cons_of_eq {w : Workload} {t : Tracked} (h : t.workload? = some w) (tracked : List Tracked) :
    workloads w (t :: tracked) = t :: workloads w tracked :=
  List.filter_cons_of_pos (by simpa using Tracked.workload?_eq_some_iff.1 h)

theorem workloads_cons_of_ne {w : Workload} {t : Tracked} (h : t.workload? ≠ some w) (tracked : List Tracked) :
    workloads w (t :: tracked) = workloads w tracked :=
  List.filter_cons_of_neg (by simpa [Tracked.workload?_eq_some_iff] using h)

variable {α : Type} {read : Json → Option α} {m m₁ : Memory}

/-- What is read of a tracked object in the store, nothing if the object is not there. -/
def Found (m : Memory) (read : Json → Option α) (t : Tracked) (live : Option α) : Prop :=
  (m.object? (Key.ofTracked t)).map (fun o => read o.toJson) = live.map some

theorem readWorkload_eq_ok_iff {o : Option Object} {live : Option α} :
    readWorkload read o = .ok live ↔ o.map (fun o => read o.toJson) = live.map some := by
  cases o with
  | none => cases live <;> simp [readWorkload]
  | some o =>
    unfold readWorkload
    cases hread : read o.toJson <;> cases live <;> simp [hread]

/-- The workloads among tracked objects as they are in the store, in the order in which they are tracked. -/
def Observed (m : Memory) (tracked : List Tracked) (ds : List (Option Deployment)) (dss : List (Option DaemonSet)) :
    Prop :=
  List.Forall₂ (Found m Deployment.ofJson?) (workloads .deployment tracked) ds
    ∧ List.Forall₂ (Found m DaemonSet.ofJson?) (workloads .daemonSet tracked) dss

theorem observed_congr (h : m₁.objects = m.objects) (tracked : List Tracked) (ds : List (Option Deployment))
    (dss : List (Option DaemonSet)) : Observed m₁ tracked ds dss ↔ Observed m tracked ds dss := by
  unfold Observed Found
  simp only [Memory.object?_congr h]

/-- One workload is looked up and put before the others. -/
theorem looks_readWorkload {β γ : Type} {t : Tracked} {s : Session β} {f : Option α → β → γ} {P : β → Prop}
    (hs : ∀ m₁ : Memory, m₁.objects = m.objects → s.Looks m₁ P) :
    (do let live ← readWorkload read (← Session.find? (Key.ofTracked t)); let b ← s; return f live b).Looks m
      fun c => ∃ live b, Found m read t live ∧ P b ∧ c = f live b := by
  refine (Session.looks_find? _).bind fun o? m₁ hm₁ ho => ?_
  refine (Session.looks_lift fun live hlive => readWorkload_eq_ok_iff.1 hlive).bind fun live m₂ hm₂ hlive => ?_
  refine (hs m₂ (hm₂.trans hm₁)).bind fun b _ _ hb => Session.looks_pure ⟨live, b, ?_, hb, rfl⟩
  unfold Found
  rw [ho, hlive]

theorem looks_lookUp (tracked : List Tracked) (m : Memory) :
    (lookUp tracked).Looks m fun found => Observed m tracked found.1 found.2 := by
  induction tracked generalizing m with
  | nil => exact Session.looks_pure ⟨.nil, .nil⟩
  | cons t tracked ih =>
    -- The others are looked up in a store whose counts have moved on, but not its objects.
    have hrest (m₁ : Memory) (hm₁ : m₁.objects = m.objects) :
        (lookUp tracked).Looks m₁ fun found => Observed m tracked found.1 found.2 :=
      (ih m₁).imp fun found => (observed_congr hm₁ tracked found.1 found.2).1
    unfold lookUp
    cases hw : t.workload? with
    | none =>
      refine (ih m).imp fun found hfound => ?_
      unfold Observed
      rw [workloads_cons_of_ne (by simp [hw]), workloads_cons_of_ne (by simp [hw])]
      exact hfound
    | some w =>
      cases w with
      | deployment =>
        refine (looks_readWorkload hrest).imp ?_
        rintro _ ⟨live, found, hlive, hfound, rfl⟩
        unfold Observed
        rw [workloads_cons_of_eq hw, workloads_cons_of_ne (by simp [hw])]
        exact ⟨.cons hlive hfound.1, hfound.2⟩
      | daemonSet =>
        refine (looks_readWorkload hrest).imp ?_
        rintro _ ⟨live, found, hlive, hfound, rfl⟩
        unfold Observed
        rw [workloads_cons_of_eq hw, workloads_cons_of_ne (by simp [hw])]
        exact ⟨hfound.1, .cons hlive hfound.2⟩

/-- A check of tracked objects only looks at the store, and its status is that of their workloads there. -/
theorem looks_check (now : Instant) {tracked : List Tracked} (h : tracked ≠ []) (m : Memory) :
    (check now tracked).Looks m fun s => ∃ ds dss, Observed m tracked ds dss ∧ s = aggregate now ds dss := by
  unfold check
  rw [if_neg (by simpa using h)]
  exact (looks_lookUp tracked m).bind fun found _ _ hfound => Session.looks_pure ⟨found.1, found.2, hfound, rfl⟩

/-! ## A store that answers -/

/-- A workload that can be read is put before the others. -/
theorem ends_readWorkload {β γ : Type} {t : Tracked} {live : Option α} {s : Session β} {b : β}
    {f : Option α → β → γ} (hm : m.Healthy) (hlive : Found m read t live)
    (hs : s.Ends (m.looked 1 0) fun r _ => r = .ok b) :
    (do let live ← readWorkload read (← Session.find? (Key.ofTracked t)); let b ← s; return f live b).Ends m
      fun r _ => r = Except.ok (f live b) := by
  refine ((Session.ends_find? (hm.not_mem _)).imp ?_).bind
  rintro _ _ ⟨rfl, rfl⟩
  refine ⟨_, rfl, ?_⟩
  rw [readWorkload_eq_ok_iff.2 hlive]
  refine (hs.imp ?_).bind
  rintro _ m₁ rfl
  exact ⟨b, rfl, Session.ends_done rfl⟩

theorem ends_lookUp {tracked : List Tracked} {ds : List (Option Deployment)} {dss : List (Option DaemonSet)}
    (hm : m.Healthy) (h : Observed m tracked ds dss) :
    (lookUp tracked).Ends m fun r _ => r = .ok (ds, dss) := by
  induction tracked generalizing m ds dss with
  | nil =>
    obtain ⟨hds, hdss⟩ := h
    cases hds
    cases hdss
    exact Session.ends_done rfl
  | cons t tracked ih =>
    unfold lookUp
    unfold Observed at h
    cases hw : t.workload? with
    | none =>
      rw [workloads_cons_of_ne (by simp [hw]), workloads_cons_of_ne (by simp [hw])] at h
      exact ih hm h
    | some w =>
      cases w with
      | deployment =>
        rw [workloads_cons_of_eq hw, workloads_cons_of_ne (by simp [hw])] at h
        obtain ⟨hds, hdss⟩ := h
        cases hds with
        | cons hlive hds => exact ends_readWorkload hm hlive (ih hm ⟨hds, hdss⟩)
      | daemonSet =>
        rw [workloads_cons_of_eq hw, workloads_cons_of_ne (by simp [hw])] at h
        obtain ⟨hds, hdss⟩ := h
        cases hdss with
        | cons hlive hdss => exact ends_readWorkload hm hlive (ih hm ⟨hds, hdss⟩)

/-- A store in which no request fails and all workloads can be read answers a check. -/
theorem ends_check (now : Instant) {tracked : List Tracked} {ds : List (Option Deployment)}
    {dss : List (Option DaemonSet)} (hne : tracked ≠ []) (hm : m.Healthy) (h : Observed m tracked ds dss) :
    (check now tracked).Ends m fun r _ => r = .ok (aggregate now ds dss) := by
  unfold check
  rw [if_neg (by simpa using hne)]
  refine ((ends_lookUp hm h).imp ?_).bind
  rintro _ m₁ rfl
  exact ⟨_, rfl, Session.ends_done rfl⟩

namespace Fleet

def rolling : Condition := ⟨"Progressing", "True", some "ReplicaSetUpdated", some "rolling"⟩

def refused : Condition := ⟨"ReplicaFailure", "True", some " ", some "quota exceeded"⟩

def web : Deployment := ⟨some 3, some ⟨some 3, some 1, [rolling, refused]⟩⟩

def conditionJson (c : Condition) : Json :=
  Json.ofFields [("type", .str c.type), ("status", .str c.status), ("reason", .str (c.reason.getD "")),
    ("message", .str (c.message.getD ""))]

def webKey : Key := ⟨⟨"apps/v1", "Deployment"⟩, some "addons", "web"⟩

def webObject : Object :=
  ⟨some webKey.type, { name := some "web", ns := some "addons" },
    [("spec", Json.ofFields [("replicas", Json.ofInt 3)]),
      ("status", Json.ofFields [("availableReplicas", Json.ofInt 1),
        ("conditions", .arr [conditionJson rolling, conditionJson refused]), ("replicas", Json.ofInt 3)])]⟩

/-- A store that holds a deployment, while the daemon set is missing. -/
def store : Memory := { objects := [(webKey.slot, webObject)], now := default }

def tracked : List Tracked :=
  [Tracked.new "apps/v1" "DaemonSet" "agent" (some "addons"), Tracked.new "v1" "ConfigMap" "web" (some "addons"),
    webKey.tracked]

theorem observed_store : Observed store tracked [some web] [none] := by
  have hdeployments : workloads .deployment tracked = [webKey.tracked] := by decide
  have hdaemonSets : workloads .daemonSet tracked = [Tracked.new "apps/v1" "DaemonSet" "agent" (some "addons")] := by
    decide
  unfold Observed
  rw [hdeployments, hdaemonSets]
  exact ⟨.cons (by unfold Found; decide +kernel) .nil, .cons (by unfold Found; decide +kernel) .nil⟩

theorem refused_hardFailure : refused.HardFailure :=
  .inr ⟨by decide, by simp [Condition.Up, refused], by simp [Condition.ShortOfReplicas, refused]⟩

end Fleet

end Health

end Addons
