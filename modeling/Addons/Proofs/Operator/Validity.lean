import Addons.Operator.Publish
import Addons.Proofs.Store.Outcome

/-!
# Statuses are valid

Every status that an installation comes to, and every status of a composite, carries a reason where it has to,
whatever the store answers; so it is never refused when it is written (`statuses_publishable`). Each kind of
component shows only some types of statuses.

What a session returns is judged over all answers to its requests (`Session.Returns`): those of a store, with
any content and any changes by others in between, are among them.
-/

namespace Addons

namespace Session

variable {α β : Type} {P : α → Prop} {Q : β → Prop}

/-- Whatever answers its requests get, something holds of what the session returns. -/
def Returns (P : α → Prop) : Session α → Prop
  | done r => ∀ a, r = .ok a → P a
  | get _ next => ∀ r, Returns P (next r)
  | list _ _ _ next => ∀ r, Returns P (next r)
  | create _ next => ∀ r, Returns P (next r)
  | update _ next => ∀ r, Returns P (next r)
  | delete _ _ next => ∀ r, Returns P (next r)
  | setFinalizers _ _ next => ∀ r, Returns P (next r)
  | mergeStatus _ _ _ next => ∀ r, Returns P (next r)
  | sleep _ next => Returns P next
  | observe _ next => Returns P next

theorem returns_ok {a : α} (h : P a) : (ok a).Returns P := fun _ ha => Except.ok.inj ha ▸ h

theorem returns_pure {a : α} (h : P a) : (pure a : Session α).Returns P := returns_ok h

theorem returns_error (e : Error) : (done (.error e) : Session α).Returns P := fun _ h => nomatch h

theorem returns_fail (e : Error) : (fail e : Session α).Returns P := returns_error e

theorem returns_true (s : Session α) : s.Returns fun _ => True := by
  induction s with
  | done r => exact fun _ _ => trivial
  | sleep _ _ ih | observe _ _ ih => exact ih
  | get _ _ ih | list _ _ _ _ ih | create _ _ ih | update _ _ ih | delete _ _ _ ih | setFinalizers _ _ _ ih
  | mergeStatus _ _ _ _ ih => exact ih

/-- What is returned after a session is judged by what the session returns. -/
theorem Returns.andThen {s : Session α} {f : Except Error α → Session β} (hs : s.Returns P)
    (hok : ∀ a, P a → (f (.ok a)).Returns Q) (herror : ∀ e, (f (.error e)).Returns Q) :
    (s.andThen f).Returns Q := by
  induction s with
  | done r =>
    cases r with
    | ok a => exact hok a (hs a rfl)
    | error e => exact herror e
  | sleep _ _ ih | observe _ _ ih => exact ih hs
  | get _ _ ih | list _ _ _ _ ih | create _ _ ih | update _ _ ih | delete _ _ _ ih | setFinalizers _ _ _ ih
  | mergeStatus _ _ _ _ ih => exact fun r => ih r (hs r)

theorem Returns.bind {s : Session α} {f : α → Session β} (hs : s.Returns P) (h : ∀ a, P a → (f a).Returns Q) :
    (s >>= f).Returns Q :=
  hs.andThen h returns_fail

theorem Returns.imp {R : α → Prop} {s : Session α} (hs : s.Returns P) (h : ∀ a, P a → R a) : s.Returns R := by
  induction s with
  | done r => exact fun a ha => h a (hs a ha)
  | sleep _ _ ih | observe _ _ ih => exact ih hs
  | get _ _ ih | list _ _ _ _ ih | create _ _ ih | update _ _ ih | delete _ _ _ ih | setFinalizers _ _ _ ih
  | mergeStatus _ _ _ _ ih => exact fun r => ih r (hs r)

/-- What is returned in the end counts. -/
theorem returns_bind {s : Session α} {f : α → Session β} (h : ∀ a, (f a).Returns Q) : (s >>= f).Returns Q :=
  (returns_true s).bind fun a _ => h a

/-- The outcome of a session as a value. -/
theorem Returns.attempt {s : Session α} (hs : s.Returns P) : s.attempt.Returns fun r => ∀ a, r = .ok a → P a :=
  hs.andThen (fun _ ha => returns_ok fun _ h => Except.ok.inj h ▸ ha) fun _ => returns_ok fun _ h => nomatch h

/-- A run against the store returns what sessions return. -/
theorem Returns.run {s : Session α} (hs : s.Returns P) (h : Host) {a : α} (ha : (s.run h).1 = .ok a) : P a := by
  induction s generalizing h with
  | done r => exact hs a ha
  | sleep _ _ ih | observe _ _ ih => exact ih hs _ ha
  | get _ _ ih | list _ _ _ _ ih | create _ _ ih | update _ _ ih | delete _ _ _ ih | setFinalizers _ _ _ ih
  | mergeStatus _ _ _ _ ih => exact ih _ (hs _) _ ha

end Session

/-! ## Statuses -/

namespace Status

theorem not_isAllBlank_nonBlank (reason fallback : String) (h : ¬Text.isAllBlank fallback) :
    ¬Text.isAllBlank (nonBlank reason fallback) := by
  unfold nonBlank
  split
  · exact h
  · assumption

/-- A blank reason is replaced where one is required. -/
theorem valid_new (now : Instant) (type : StatusType) (reason message : String) :
    (new now type reason message).Valid := by
  intro hrequires
  cases type with
  | available | progressing | ready => cases hrequires
  | unhealthy => exact not_isAllBlank_nonBlank reason "Unhealthy" (by decide)
  | degraded => exact not_isAllBlank_nonBlank reason "Degraded" (by decide)

theorem validate_eq_ok_iff {s : Status} : s.validate = .ok () ↔ s.Valid := by
  unfold validate
  split
  · exact iff_of_true rfl ‹_›
  · exact iff_of_false nofun ‹_›

/-- The time at which a type last changed is of no matter. -/
theorem Valid.withTransitionFrom {s : Status} (h : s.Valid) (previous : Option Status) :
    (s.withTransitionFrom previous).Valid := by
  unfold Status.withTransitionFrom
  split
  · split
    · exact h
    · exact h
  · exact h

end Status

/-- A valid status of one of a few types. -/
structure Status.OneOf (types : List StatusType) (s : Status) : Prop where
  valid : s.Valid
  type : s.type ∈ types

theorem Status.oneOf_new (now : Instant) {types : List StatusType} {type : StatusType} (h : type ∈ types)
    (reason message : String) : (Status.new now type reason message).OneOf types :=
  ⟨valid_new now type reason message, by cases type <;> exact h⟩

/-! ## Charts and issuers -/

theorem ReleaseOutcome.oneOf_health (now : Instant) (o : ReleaseOutcome) :
    (o.health now).OneOf [.available, .progressing, .unhealthy] := by
  cases o with
  | success => exact Status.oneOf_new now (show StatusType.available ∈ _ by decide) _ _
  | progressing => exact Status.oneOf_new now (show StatusType.progressing ∈ _ by decide) _ _
  | failed reason message => exact Status.oneOf_new now (show StatusType.unhealthy ∈ _ by decide) reason message

theorem Issuer.oneOf_health (now : Instant) (issuer : Object) :
    (Issuer.health now issuer).OneOf [.ready, .progressing, .degraded] := by
  have hready (reason message : String) : (Status.ready now reason message).OneOf [.ready, .progressing, .degraded] :=
    Status.oneOf_new now (show StatusType.ready ∈ _ by decide) _ _
  have hprogressing (reason message : String) :
      (Status.progressing now reason message).OneOf [.ready, .progressing, .degraded] :=
    Status.oneOf_new now (show StatusType.progressing ∈ _ by decide) _ _
  have hdegraded (reason message : String) :
      (Status.degraded now reason message).OneOf [.ready, .progressing, .degraded] :=
    Status.oneOf_new now (show StatusType.degraded ∈ _ by decide) _ _
  unfold Issuer.health
  split
  · exact hprogressing _ _
  · dsimp only
    split
    · exact hready _ _
    · exact hdegraded _ _
    · exact hprogressing _ _

namespace Operator

open Session

theorem returns_installHelm (env : Surroundings) (addon : HelmAddon) :
    (installHelm env addon).Returns (Status.OneOf [.available, .progressing, .unhealthy]) := by
  refine returns_bind fun target => returns_bind fun _ => returns_bind fun outcome => ?_
  exact returns_pure (outcome.oneOf_health env.now)

theorem returns_issuerStatus (now : Instant) (addon : IssuerAddon) :
    (Issuer.status now addon).Returns (Status.OneOf [.ready, .progressing, .degraded]) := by
  refine returns_bind fun key => returns_bind fun found => ?_
  cases found with
  | some o => exact returns_pure (Issuer.oneOf_health now o)
  | none => exact returns_pure (Status.oneOf_new now (show StatusType.progressing ∈ _ by decide) _ _)

theorem returns_installIssuer (env : Surroundings) (addon : IssuerAddon) :
    (installIssuer env addon).Returns (Status.OneOf [.ready, .progressing, .degraded]) := by
  refine returns_bind fun r => ?_
  split
  · exact returns_issuerStatus env.now addon
  · exact returns_pure (Status.oneOf_new env.now (show StatusType.degraded ∈ _ by decide) _ _)
  · exact returns_fail _

end Operator

/-! ## Bundles -/

namespace Health

/-- The types that a bundle shows. -/
abbrev ofBundles : List StatusType := [.available, .progressing, .unhealthy, .degraded]

theorem oneOf_combine (now : Instant) (deployments daemonSets : Tally) :
    (combine now deployments daemonSets).OneOf ofBundles := by
  have havailable (reason message : String) : (Status.available now reason message).OneOf ofBundles :=
    Status.oneOf_new now (show StatusType.available ∈ _ by decide) _ _
  have hprogressing (reason message : String) : (Status.progressing now reason message).OneOf ofBundles :=
    Status.oneOf_new now (show StatusType.progressing ∈ _ by decide) _ _
  have hunhealthy (reason message : String) : (Status.unhealthy now reason message).OneOf ofBundles :=
    Status.oneOf_new now (show StatusType.unhealthy ∈ _ by decide) _ _
  unfold combine
  split
  · exact hunhealthy _ _
  · exact hunhealthy _ _
  · split
    · exact havailable _ _
    · exact hprogressing _ _
    · exact hprogressing _ _
    · exact havailable _ _

open Session in
theorem returns_check (now : Instant) (tracked : List Tracked) :
    (check now tracked).Returns (Status.OneOf ofBundles) := by
  unfold check
  split
  · exact returns_pure (Status.oneOf_new now (show StatusType.unhealthy ∈ _ by decide) _ _)
  · exact returns_bind fun found => returns_pure (oneOf_combine now _ _)

end Health

open Session in
/-- What is waited for is a status of the probe. -/
theorem Await.returns_pollFrom {P : Status → Prop} {timeout interval : Nat} {probe : Session (Option Status)}
    {sleep : Nat → Session PUnit} (hprobe : probe.Returns fun o => ∀ s ∈ o, P s) (elapsed idle : Nat) :
    (pollFrom timeout interval probe sleep elapsed idle).Returns P := by
  induction elapsed, idle using pollFrom.induct timeout interval with
  | case1 elapsed idle ih₁ ih₂ =>
    unfold pollFrom
    refine hprobe.bind fun o ho => ?_
    split
    · rename_i s hs
      exact returns_pure (ho s (Option.eq_some_of_filter_eq_some hs))
    · split
      · rename_i hmore
        exact returns_bind fun _ => ih₁ hmore
      · split
        · rename_i hidle
          exact ih₂ hidle
        · exact returns_fail _

namespace Operator

open Session

theorem oneOf_renderFailed {env : Surroundings} {e : Error} {s : Status} (h : renderFailed env e = .ok s) :
    s.OneOf Health.ofBundles := by
  unfold renderFailed at h
  split at h
  · rw [← Except.ok.inj h]
    exact Status.oneOf_new env.now (show StatusType.degraded ∈ _ by decide) _ _
  · cases h

theorem returns_renderFailed (env : Surroundings) (e : Error) :
    (done (renderFailed env e)).Returns (Status.OneOf Health.ofBundles) :=
  fun _ hs => oneOf_renderFailed hs

theorem returns_awaitWorkloads (env : Surroundings) (objects : List Tracked) :
    (awaitWorkloads env objects).Returns (Status.OneOf Health.ofBundles) := by
  have hprobe : (do return some (← Health.check env.now objects) : Session (Option Status)).Returns
      fun o => ∀ s ∈ o, s.OneOf Health.ofBundles :=
    (Health.returns_check env.now objects).bind fun s hs => returns_pure fun _ h => Option.some.inj h ▸ hs
  have hpoll : (Await.poll env.awaitTimeout.millis Await.interval _ pause).Returns (Status.OneOf Health.ofBundles) :=
    Await.returns_pollFrom hprobe 0 Await.maxIdle
  refine hpoll.attempt.bind fun r hr => ?_
  split
  · rename_i s
    exact returns_pure (hr s rfl)
  · exact Health.returns_check env.now objects
  · exact returns_fail _

theorem returns_installManifest (env : Surroundings) (addon : ManifestAddon) :
    (installManifest env addon).Returns (Status.OneOf Health.ofBundles) := by
  refine returns_bind fun ns => returns_bind fun due => ?_
  split
  · refine returns_bind fun r => ?_
    split
    · exact returns_awaitWorkloads env _
    · exact returns_renderFailed env _
  · refine returns_bind fun r => ?_
    split
    · exact Health.returns_check env.now _
    · exact returns_renderFailed env _

end Operator

/-! ## Composites -/

theorem Rollup.oneOf_status (now : Instant) (components : List ComponentHealth) :
    (status now components).OneOf [.unhealthy, .degraded, .available, .progressing] := by
  unfold status
  split
  · exact Status.oneOf_new now (show StatusType.unhealthy ∈ _ by decide) _ _
  · exact Status.oneOf_new now (show StatusType.degraded ∈ _ by decide) _ _
  · exact Status.oneOf_new now (show StatusType.available ∈ _ by decide) _ _
  · exact Status.oneOf_new now (show StatusType.progressing ∈ _ by decide) _ _

namespace Operator

open Session

theorem returns_setStatus (env : Surroundings) (set : AddonSet) :
    (setStatus env set).Returns fun t => ∃ s, t.status = some s ∧ s.Valid :=
  returns_bind fun _ => returns_bind fun components =>
    returns_pure ⟨_, rfl, (Rollup.oneOf_status env.now components).valid.withTransitionFrom _⟩

/-! ## Writing -/

/-- What is written of a valid status is valid, whatever is stored. -/
theorem statusToWrite_of_valid {next : Status} (h : next.Valid) (previous : Option Status) :
    ∃ w, statusToWrite previous next = .ok w ∧ ∀ s ∈ w, s.Valid := by
  unfold statusToWrite
  split
  · exact ⟨none, rfl, nofun⟩
  · have hvalid := h.withTransitionFrom previous
    dsimp only
    rw [Status.validate_eq_ok_iff.2 hvalid]
    exact ⟨_, rfl, fun s hs => Option.some.inj hs ▸ hvalid⟩

theorem run_publish_ne {σ τ : Type} (k : ResourceKind σ τ) (key : Key) (status : Json) (manager : Option String)
    (h : Host) (c : ContentError) : ((publish k key status manager).run h).1 ≠ .error (.content c) := by
  intro herror
  unfold publish at herror
  simp only [Session.run, Memory.mergeStatus] at herror
  cases hfound : h.memory.object? key with
  | none =>
    rw [hfound] at herror
    cases herror
  | some o =>
    rw [hfound] at herror
    dsimp only at herror
    split at herror <;> cases herror

/-- A valid status is not refused for want of a reason. -/
theorem run_writeStatus_ne {σ : Type} {next : Status} (hvalid : next.Valid) (k : ResourceKind σ Status)
    (r : Resource σ Status) (previous : Option Status) (h : Host) (type : String) :
    ((writeStatus k r previous next).run h).1 ≠ .error (.content (.missingReason type)) := by
  obtain ⟨w, hw, -⟩ := statusToWrite_of_valid hvalid previous
  unfold writeStatus
  rw [hw]
  cases w with
  | none => nofun
  | some status =>
    show ((liftM (r.namespaceOf k.kind) >>= fun ns =>
      publish k (k.key ns r.name) status.toJson (some statusManager)).run h).1 ≠ _
    cases hns : r.namespaceOf k.kind with
    | error e =>
      unfold Resource.namespaceOf at hns
      split at hns
      · cases hns
      · rw [← Except.error.inj hns]
        nofun
    | ok ns => exact run_publish_ne k _ _ _ h _

/-- A status that every store takes, of one of a few types. -/
structure Publishable (types : List StatusType) (s : Status) : Prop where
  validate : s.validate = .ok ()
  type : s.type ∈ types
  /-- It is written in place of any other without a complaint about its reason. -/
  write : ∀ {σ : Type} (k : ResourceKind σ Status) (r : Resource σ Status) (previous : Option Status) (h : Host)
    (type : String), ((writeStatus k r previous s).run h).1 ≠ .error (.content (.missingReason type))

theorem publishable_of_oneOf {types : List StatusType} {s : Status} (h : s.OneOf types) : Publishable types s :=
  ⟨Status.validate_eq_ok_iff.2 h.valid, h.type, run_writeStatus_ne h.valid⟩

/-- The statuses that installations and rollups come to are valid and are written, for all contents of the store
and all answers of it. A chart is available, progressing or unhealthy, an issuer is ready, progressing or
degraded, and a bundle is never ready. -/
theorem statuses_publishable :
    (∀ env addon, (installHelm env addon).Returns (Publishable [.available, .progressing, .unhealthy]))
      ∧ (∀ env addon, (installManifest env addon).Returns
          (Publishable [.available, .progressing, .unhealthy, .degraded]))
      ∧ (∀ env addon, (installIssuer env addon).Returns (Publishable [.ready, .progressing, .degraded]))
      ∧ (∀ now components,
          Publishable [.unhealthy, .degraded, .available, .progressing] (Rollup.status now components))
      ∧ ∀ env set, (setStatus env set).Returns fun t => ∃ s, t.status = some s ∧ s.validate = .ok () := by
  refine ⟨fun env addon => ?_, fun env addon => ?_, fun env addon => ?_, fun now components => ?_,
    fun env set => ?_⟩
  · exact (returns_installHelm env addon).imp fun _ => publishable_of_oneOf
  · exact (returns_installManifest env addon).imp fun _ => publishable_of_oneOf
  · exact (returns_installIssuer env addon).imp fun _ => publishable_of_oneOf
  · exact publishable_of_oneOf (Rollup.oneOf_status now components)
  · exact (returns_setStatus env set).imp fun t ⟨s, ht, hs⟩ => ⟨s, ht, Status.validate_eq_ok_iff.2 hs⟩

end Operator

end Addons
