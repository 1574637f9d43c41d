import Addons.Proofs.Operator.BadInput
import Addons.Proofs.Bundle.Progress

/-!
# Renders that cannot be written

A rendered stream is made into objects, or it has a fault: it is no UTF-8, no YAML of documents, or one of its
documents has no type, no name, or fields that are not those of an object (`Bundle.Fault`,
`Bundle.prepare_eq_error_iff`). Where no request to the store fails, an installation shows the fault in the
status of the component, unless the fault is the last of these or the pass does not come to the render
(`Operator.fault_shown`).
-/

namespace Addons

open Session (Ends ends_done)

/-! ## Faults -/

namespace Prepared

variable {doc : Json} {ns : String} {labels : Table String String} {e : Error}

/-- What keeps a document from being written. -/
inductive Unfit (doc : Json) : Error → Prop
  /-- Its fields are not those of an object. -/
  | misfit : Object.ofJson? doc = none → Unfit doc .serialization
  | untyped {o : Object} : Object.ofJson? doc = some o → o.type = none →
      Unfit doc (.invalidManifest "document has no apiVersion/kind")
  | unnamed {o : Object} {t : TypeRef} : Object.ofJson? doc = some o → o.type = some t →
      (∀ name, o.metadata.name = some name → name = "") →
      Unfit doc (.invalidManifest s!"{t.kind} document has no metadata.name")

/-- A document is an object with a type and a name. -/
def Writable (doc : Json) : Prop :=
  ∃ o t name, Object.ofJson? doc = some o ∧ o.type = some t ∧ o.metadata.name = some name ∧ name ≠ ""

theorem filter_eq_none_iff {name? : Option String} :
    (name?.filter fun s => !s.isEmpty) = none ↔ ∀ name, name? = some name → name = "" := by
  cases name? with
  | none => simp
  | some name => simp [Option.filter]

theorem Unfit.ofDocument_eq (h : Unfit doc e) : ofDocument doc ns labels = .error e := by
  unfold ofDocument Object.ofDocument
  cases h with
  | misfit ho =>
    simp only [bind, Except.bind, ho]
  | untyped ho ht =>
    simp only [bind, Except.bind, ho, ht]
    rfl
  | unnamed ho ht hempty =>
    simp only [bind, Except.bind, ho, ht, filter_eq_none_iff.2 hempty]
    rfl

theorem Writable.exists_ofDocument (h : Writable doc) : ∃ p, ofDocument doc ns labels = .ok p := by
  obtain ⟨o, t, name, ho, ht, hname, hne⟩ := h
  exact ⟨_, ofDocument_eq_ok_iff.2 ⟨o, t, name, Object.ofDocument_eq_ok_iff.2 ho, ht, hname, hne, rfl⟩⟩

theorem writable_or_unfit (doc : Json) : Writable doc ∨ ∃ e, Unfit doc e := by
  cases ho : Object.ofJson? doc with
  | none => exact .inr ⟨_, .misfit ho⟩
  | some o =>
    cases ht : o.type with
    | none => exact .inr ⟨_, .untyped ho ht⟩
    | some t =>
      by_cases hempty : ∀ name, o.metadata.name = some name → name = ""
      · exact .inr ⟨_, .unnamed ho ht hempty⟩
      · push Not at hempty
        obtain ⟨name, hname, hne⟩ := hempty
        exact .inl ⟨o, t, name, ho, ht, hname, hne⟩

theorem ofDocument_eq_error_iff : ofDocument doc ns labels = .error e ↔ Unfit doc e := by
  refine ⟨fun h => ?_, Unfit.ofDocument_eq⟩
  obtain hw | ⟨e', hunfit⟩ := writable_or_unfit doc
  · have hok : ∃ p, ofDocument doc ns labels = .ok p := hw.exists_ofDocument
    obtain ⟨p, hp⟩ := hok
    rw [hp] at h
    cases h
  · obtain rfl := Except.error.inj (h.symm.trans hunfit.ofDocument_eq)
    exact hunfit

theorem exists_ofDocument_iff : (∃ p, ofDocument doc ns labels = .ok p) ↔ Writable doc := by
  refine ⟨?_, Writable.exists_ofDocument⟩
  rintro ⟨p, hp⟩
  obtain hw | ⟨e, hunfit⟩ := writable_or_unfit doc
  · exact hw
  · rw [hunfit.ofDocument_eq] at hp
    cases hp

end Prepared

namespace Bundle

open Prepared (Unfit Writable)

variable {bytes : ByteArray} {ns name : String} {e : Error}

/-- The first document of a stream that cannot be written, and why. -/
inductive FirstUnfit (docs : List Json) (e : Error) : Prop
  | mk {before after : List Json} {doc : Json} : docs = before ++ doc :: after →
      (∀ d ∈ before, Writable d) → Unfit doc e → FirstUnfit docs e

/-- What keeps a stream from being made into objects. -/
inductive Fault (bytes : ByteArray) : Error → Prop
  | encoding {fault : Text.Utf8Fault} : Text.ofUtf8 bytes = .error fault →
      Fault bytes (.invalidManifest s!"render is not UTF-8: {fault.text}")
  | content {source : String} {c : ContentError} : Text.ofUtf8 bytes = .ok source →
      Manifest.parseDocuments source = .error c → Fault bytes (.content c)
  | document {source : String} {docs : List Json} {e : Error} : Text.ofUtf8 bytes = .ok source →
      Manifest.parseDocuments source = .ok docs → FirstUnfit docs e → Fault bytes e

/-- The first document that cannot be written has fields that are not those of an object. -/
def Misfit (bytes : ByteArray) : Prop :=
  ∃ source docs before doc after, Text.ofUtf8 bytes = .ok source ∧ Manifest.parseDocuments source = .ok docs
    ∧ docs = before ++ doc :: after ∧ (∀ d ∈ before, Writable d) ∧ Object.ofJson? doc = none

/-- Of a list of results the first error counts. -/
theorem mapM_eq_error_iff {ε α β : Type} {f : α → Except ε β} {l : List α} {e : ε} :
    l.mapM f = .error e
      ↔ ∃ before a after, l = before ++ a :: after ∧ (∀ b ∈ before, ∃ c, f b = .ok c) ∧ f a = .error e := by
  induction l with
  | nil => simp [pure, Except.pure]
  | cons a l ih =>
    rw [List.mapM_cons]
    cases ha : f a with
    | error e' =>
      constructor
      · rintro ⟨rfl⟩
        exact ⟨[], a, l, rfl, by simp, ha⟩
      · rintro ⟨_ | ⟨b, before⟩, a', after, hl, hbefore, ha'⟩
        · obtain ⟨rfl, rfl⟩ := List.cons.inj hl
          exact congrArg Except.error (Except.error.inj (ha.symm.trans ha'))
        · obtain ⟨rfl, rfl⟩ := List.cons.inj hl
          obtain ⟨c, hc⟩ := hbefore _ List.mem_cons_self
          rw [ha] at hc
          cases hc
    | ok c =>
      have htail : (Except.ok c >>= fun b => l.mapM f >>= fun bs => pure (b :: bs)) = .error e
          ↔ l.mapM f = .error e := by
        cases l.mapM f <;> simp [bind, Except.bind, pure, Except.pure]
      rw [htail, ih]
      constructor
      · rintro ⟨before, a', after, rfl, hbefore, ha'⟩
        refine ⟨a :: before, a', after, rfl, ?_, ha'⟩
        exact List.forall_mem_cons.2 ⟨⟨c, ha⟩, hbefore⟩
      · rintro ⟨_ | ⟨b, before⟩, a', after, hl, hbefore, ha'⟩
        · obtain ⟨rfl, rfl⟩ := List.cons.inj hl
          rw [ha] at ha'
          cases ha'
        · obtain ⟨rfl, rfl⟩ := List.cons.inj hl
          exact ⟨before, a', after, rfl, (List.forall_mem_cons.1 hbefore).2, ha'⟩

/-- The documents of a stream are prepared up to the first that cannot be written. -/
theorem mapM_ofDocument_eq_error_iff {docs : List Json} {labels : Table String String} :
    (docs.mapM fun doc => Prepared.ofDocument doc ns labels) = .error e ↔ FirstUnfit docs e := by
  rw [mapM_eq_error_iff]
  constructor
  · rintro ⟨before, doc, after, hdocs, hbefore, hdoc⟩
    refine .mk hdocs (fun d hd => ?_) (Prepared.ofDocument_eq_error_iff.1 hdoc)
    exact Prepared.exists_ofDocument_iff.1 (hbefore d hd)
  · rintro ⟨hdocs, hbefore, hunfit⟩
    exact ⟨_, _, _, hdocs, fun d hd => (hbefore d hd).exists_ofDocument, hunfit.ofDocument_eq⟩

/-- A stream is made into objects, or it has a fault, and that is what is said of it. -/
theorem prepare_eq_error_iff : prepare bytes ns name = .error e ↔ Fault bytes e := by
  unfold prepare
  constructor
  · intro h
    cases hsource : Text.ofUtf8 bytes with
    | error fault =>
      rw [hsource] at h
      obtain rfl := Except.error.inj h
      exact .encoding hsource
    | ok source =>
      rw [hsource] at h
      cases hdocs : Manifest.parseDocuments source with
      | error c =>
        obtain rfl : Error.content c = e := by
          simpa [Except.mapError, bind, Except.bind, hdocs] using h
        exact .content hsource hdocs
      | ok docs =>
        have hmap : (docs.mapM fun doc => Prepared.ofDocument doc ns (labels name)) = .error e := by
          simpa [Except.mapError, bind, Except.bind, hdocs] using h
        exact .document hsource hdocs (mapM_ofDocument_eq_error_iff.1 hmap)
  · intro h
    cases h with
    | encoding hsource =>
      rw [hsource]
      rfl
    | content hsource hdocs => simp [Except.mapError, bind, Except.bind, hsource, hdocs]
    | document hsource hdocs hfirst =>
      simpa [Except.mapError, bind, Except.bind, hsource, hdocs] using mapM_ofDocument_eq_error_iff.2 hfirst

theorem misfit_iff : Misfit bytes ↔ Fault bytes .serialization := by
  constructor
  · rintro ⟨source, docs, before, doc, after, hsource, hparse, hdocs, hbefore, hdoc⟩
    exact .document hsource hparse (.mk hdocs hbefore (.misfit hdoc))
  · intro h
    cases h with
    | document hsource hparse hfirst =>
      obtain ⟨hdocs, hbefore, hunfit⟩ := hfirst
      cases hunfit with
      | misfit hdoc => exact ⟨_, _, _, _, _, hsource, hparse, hdocs, hbefore, hdoc⟩

/-- Every fault counts as one of the input, but for documents whose fields are not those of an object. -/
theorem Fault.isInput_iff (h : Fault bytes e) : e.isInput = true ↔ ¬Misfit bytes := by
  rw [misfit_iff]
  have hunique (h' : Fault bytes .serialization) : e = .serialization := by
    have hprepare : prepare bytes "" "" = .error e := prepare_eq_error_iff.2 h
    exact Except.error.inj (hprepare.symm.trans (prepare_eq_error_iff.2 h'))
  constructor
  · intro hinput h'
    rw [hunique h'] at hinput
    cases hinput
  · intro hfit
    cases h with
    | encoding _ | content _ _ => rfl
    | document hsource hparse hfirst =>
      obtain ⟨hdocs, hbefore, hunfit⟩ := hfirst
      cases hunfit with
      | misfit hdoc =>
        exact absurd (.document hsource hparse (.mk hdocs hbefore (.misfit hdoc))) hfit
      | untyped _ _ | unnamed _ _ _ => rfl

/-! ## Retries -/

section Retry

variable {m : Memory} {render : Renderer} {owner : Option OwnerReference}

/-- A retry of a source that is at fault fails with the fault, once its removal gets through. -/
theorem ends_retry_of_error {now : Instant} {addon : ManifestAddon} (hm : m.Healthy)
    (hns : addon.metadata.ns = some ns) (hname : addon.metadata.name = some name)
    (hbad : documents render ns name addon.spec = .error e) :
    (retry now render addon owner).Ends m fun r _ =>
      (Readable ns name m → r = .error e) ∧ (¬Readable ns name m → r = .error .serialization) := by
  unfold retry
  rw [identity_eq_ok hns hname]
  refine Ends.bind (ends_done ⟨(ns, name), rfl, ?_⟩)
  refine Ends.bind_cases ((ends_remove hm).imp ?_)
  rintro r m₁ ⟨hreadable, hunreadable⟩
  by_cases hread : Readable ns name m
  · obtain ⟨n, rfl⟩ := hreadable hread
    refine .inl ⟨n, rfl, Ends.imp (Ends.bind_error ?_) fun r _ h => ⟨fun _ => h, fun h => absurd hread h⟩⟩
    refine (Ends.runs (P := fun _ _ => True) fun _ => trivial).imp ?_
    rintro r m₂ ⟨-, es, happly⟩
    exact (runs_apply_of_error hbad happly).2.1
  · exact .inr ⟨_, hunreadable hread, fun h => absurd h hread, fun _ => rfl⟩

end Retry

end Bundle

/-! ## Installations -/

namespace Operator

variable {α : Type} {m : Memory} {bytes : ByteArray} {ns : String} {env : Surroundings} {addon : ManifestAddon}

theorem ends_measure {component : String} {install : Bool} {asked : Except Error α → Bool} {s : Session α}
    {P : Except Error α → Memory → Prop} (h : s.Ends m P) : (measure component install asked s).Ends m P := by
  refine Ends.bind (h.attempt.imp ?_)
  rintro _ m₁ ⟨r, rfl, hr⟩
  refine ⟨r, rfl, ?_⟩
  dsimp only
  by_cases hasked : asked r
  · rw [if_pos hasked]
    exact fun host => hr
  · rw [if_neg hasked]
    exact ends_done hr

/-- What is measured and fails, where the failure is only reported. -/
theorem ends_of_measured_error {β : Type} {component : String} {install : Bool}
    {asked : Except Error α → Bool} {s : Session α} {f : Except Error α → Session β}
    {g : Error → Except Error β} {Q : Except Error β → Prop} (hf : ∀ e, f (.error e) = Session.done (g e))
    (h : s.Ends m fun r _ => ∃ e, r = .error e ∧ Q (g e)) :
    ((measure component install asked s).attempt >>= f).Ends m fun r _ => Q r := by
  refine Ends.bind ((ends_measure h).attempt.imp ?_)
  rintro _ m₁ ⟨_, rfl, e, rfl, hQ⟩
  refine ⟨_, rfl, ?_⟩
  rw [hf]
  exact ends_done hQ

/-- A pass over a component comes to its render: at once, or after the removal for a retry. -/
def Renders (env : Surroundings) (addon : ManifestAddon) (ns : String) (m : Memory) : Prop :=
  addon.retryDue env.now = .ok false
    ∨ addon.retryDue env.now = .ok true ∧ ∃ name, addon.metadata.name = some name ∧ Bundle.Readable ns name m

theorem ends_installManifest_of_error {e : Error} (hm : m.Healthy) (hns : addon.metadata.ns = some ns)
    (hbad : Bundle.documents env.render ns addon.name addon.spec = .error e) :
    (installManifest env addon).Ends m fun r _ =>
      (Renders env addon ns m → r = renderFailed env e) ∧ (¬Renders env addon ns m → ∃ e', r = .error e') := by
  unfold installManifest
  rw [Resource.namespaceOf_eq_ok hns]
  refine Ends.bind (ends_done ⟨ns, rfl, ?_⟩)
  dsimp only
  cases hdue : addon.retryDue env.now with
  | error e' =>
    refine Ends.bind_cases (ends_done (.inr ⟨e', rfl, fun h => ?_, fun _ => ⟨e', rfl⟩⟩))
    rcases h with h | ⟨h, -⟩ <;>
    · rw [hdue] at h
      cases h
  | ok due =>
    refine Ends.bind (ends_done ⟨due, rfl, ?_⟩)
    cases due with
    | false =>
      rw [if_neg Bool.false_ne_true]
      refine ends_of_measured_error (fun _ => rfl) ?_
      refine (Ends.runs (P := fun _ _ => True) fun _ => trivial).imp ?_
      rintro r m' ⟨-, es, happly⟩
      refine ⟨e, (Bundle.runs_apply_of_error hbad happly).2.1, fun _ => rfl, fun h => absurd (.inl hdue) h⟩
    | true =>
      rw [if_pos rfl]
      refine ends_of_measured_error (fun _ => rfl) ?_
      cases hname : addon.metadata.name with
      | none =>
        have hidentity : Bundle.identity addon.metadata
            = .error (.invalidObject "manifest component needs a name and namespace") := by
          unfold Bundle.identity
          rw [hns, hname]
        unfold Bundle.retry
        rw [hidentity]
        refine Ends.bind_cases (ends_done (.inr ⟨_, rfl, _, rfl, fun h => ?_, fun _ => ⟨_, rfl⟩⟩))
        rcases h with h | ⟨-, name, h, -⟩
        · rw [hdue] at h
          cases h
        · rw [hname] at h
          cases h
      | some name =>
        have hnamed : addon.name = name := Resource.name_eq hname
        rw [hnamed] at hbad
        refine (Bundle.ends_retry_of_error hm hns hname hbad).imp ?_
        rintro r m' ⟨hreadable, hunreadable⟩
        by_cases hread : Bundle.Readable ns name m
        · refine ⟨e, hreadable hread, fun _ => rfl, fun h => absurd (.inr ⟨hdue, name, hname, hread⟩) h⟩
        · refine ⟨_, hunreadable hread, fun h => ?_, fun _ => ⟨_, rfl⟩⟩
          rcases h with h | ⟨-, name', h, hread'⟩
          · rw [hdue] at h
            cases h
          · obtain rfl := Option.some.inj (hname.symm.trans h)
            exact absurd hread' hread

/-- A component whose render cannot be made into objects shows that in its status, where no request to the
store fails: exactly if the pass comes to the render and the fault is not one of a document whose fields are not
those of an object. Else the pass fails. -/
theorem fault_shown (hm : m.Healthy) (hns : addon.metadata.ns = some ns)
    (hbytes : env.render addon.spec.url addon.spec.patches addon.spec.images = .ok bytes)
    (hbad : ∀ objects, Bundle.prepare bytes ns addon.name ≠ .ok objects) :
    ∃ e, Bundle.Fault bytes e ∧ (installManifest env addon).Ends m fun r _ =>
      (Renders env addon ns m ∧ ¬Bundle.Misfit bytes → r = .ok (.degraded env.now "RenderFailed" e.message))
        ∧ (¬(Renders env addon ns m ∧ ¬Bundle.Misfit bytes) → ∃ e', r = .error e') := by
  cases hprepare : Bundle.prepare bytes ns addon.name with
  | ok objects => exact absurd hprepare (hbad objects)
  | error e =>
    have hfault : Bundle.Fault bytes e := Bundle.prepare_eq_error_iff.1 hprepare
    have hdocuments : Bundle.documents env.render ns addon.name addon.spec = .error e := by
      unfold Bundle.documents
      rw [hbytes]
      exact hprepare
    refine ⟨e, hfault, (ends_installManifest_of_error hm hns hdocuments).imp ?_⟩
    rintro r m' ⟨hrenders, hfails⟩
    by_cases hcomes : Renders env addon ns m
    · rw [hrenders hcomes]
      unfold renderFailed
      by_cases hinput : e.isInput
      · rw [if_pos hinput]
        exact ⟨fun _ => rfl, fun h => absurd ⟨hcomes, hfault.isInput_iff.1 hinput⟩ h⟩
      · rw [if_neg hinput]
        exact ⟨fun h => absurd (hfault.isInput_iff.2 h.2) hinput, fun _ => ⟨e, rfl⟩⟩
    · exact ⟨fun h => absurd h.1 hcomes, fun _ => hfails hcomes⟩

section Documents

/-- A component whose source is a text, in a pass in which it is rendered as it is. -/
def sourced (text : String) : ManifestAddon :=
  { metadata := { name := some "metrics", ns := some "default" }, spec := { url := text } }

def plain : Surroundings := { now := default, render := Bundle.echo }

/-- A document that has no name. -/
def nameless : String := "apiVersion: v1\nkind: ConfigMap"

/-- A document with a label that is no text. -/
def mislabelled : String := "apiVersion: v1\nkind: ConfigMap\nmetadata: \x7bname: a, labels: \x7blevel: 1\x7d\x7d"

theorem documents_checked :
    (match Bundle.prepare nameless.toUTF8 "default" "metrics" with
      | .ok _ => false
      | .error e => e.isInput) = true
      ∧ (match Bundle.prepare mislabelled.toUTF8 "default" "metrics" with
        | .ok _ => false
        | .error e => e = .serialization) = true := by
  decide +kernel

-- the documents are prepared by the kernel only
attribute [local irreducible] Bundle.prepare

theorem nameless_document_shown :
    ∃ e : Error, (installManifest plain (sourced nameless)).Ends { now := default } fun r _ =>
      r = .ok (.degraded default "RenderFailed" e.message) := by
  have hchecked := documents_checked.1
  cases hprepare : Bundle.prepare nameless.toUTF8 "default" "metrics" with
  | ok _ =>
    rw [hprepare] at hchecked
    cases hchecked
  | error e₀ =>
    rw [hprepare] at hchecked
    have hbad : ∀ objects, Bundle.prepare nameless.toUTF8 "default" (sourced nameless).name ≠ .ok objects := by
      intro objects hok
      exact absurd (hprepare.symm.trans hok) (fun h => nomatch h)
    have hbytes : plain.render (sourced nameless).spec.url (sourced nameless).spec.patches
        (sourced nameless).spec.images = .ok nameless.toUTF8 := rfl
    obtain ⟨e, -, hends⟩ := fault_shown (m := { now := default }) rfl rfl hbytes hbad
    have hfit : ¬Bundle.Misfit nameless.toUTF8 :=
      (Bundle.prepare_eq_error_iff.1 hprepare).isInput_iff.1 hchecked
    exact ⟨e, hends.imp fun r _ h => h.1 ⟨.inl rfl, hfit⟩⟩

/-- A document whose label is no text cannot be written, and the installation fails with that on a store of
which no request fails. -/
theorem mislabelled_document_fails :
    ∃ m : Memory, m.Healthy
      ∧ Bundle.prepare mislabelled.toUTF8 "default" "metrics" = .error .serialization
      ∧ plain.render mislabelled [] [] = .ok mislabelled.toUTF8
      ∧ (installManifest plain (sourced mislabelled)).Ends m fun r _ => r = .error .serialization := by
  have hprepare : Bundle.prepare mislabelled.toUTF8 "default" "metrics" = .error .serialization := by
    have hchecked := documents_checked.2
    cases h : Bundle.prepare mislabelled.toUTF8 "default" "metrics" with
    | ok _ =>
      rw [h] at hchecked
      cases hchecked
    | error e =>
      rw [h] at hchecked
      exact congrArg _ (of_decide_eq_true hchecked)
  refine ⟨{ now := default }, rfl, hprepare, rfl, ?_⟩
  have hdocuments : Bundle.documents plain.render "default" (sourced mislabelled).name
      (sourced mislabelled).spec = .error .serialization := hprepare
  have hends := ends_installManifest_of_error (m := { now := default }) rfl rfl hdocuments
  exact hends.imp fun r m' h => h.1 (.inl rfl)

end Documents

end Operator

end Addons
