import Addons.Object.Basic

/-!
# Preparing documents

Whether objects of a kind live in a namespace, and which kinds are workloads whose health shows. A rendered document
becomes an object that can be written: its namespace follows its scope, and labels are added over its own.
-/

namespace Addons

/-! ## Known kinds -/

inductive Scope where
  | namespaced
  | cluster
  deriving DecidableEq, Repr

def Scope.name : Scope → String
  | .namespaced => "Namespaced"
  | .cluster => "Cluster"

/-- Workloads whose health is observed. -/
inductive Workload where
  | deployment
  | daemonSet
  deriving DecidableEq, Repr

def Workload.name : Workload → String
  | .deployment => "Deployment"
  | .daemonSet => "DaemonSet"

structure KnownKind where
  group : String
  kind : String
  scope : Scope
  workload : Option Workload := none
  deriving DecidableEq, Repr

namespace KnownKind

def rbac : String := "rbac.authorization.k8s.io"

def admission : String := "admissionregistration.k8s.io"

def all : List KnownKind :=
  [⟨"", "Namespace", .cluster, none⟩,
   ⟨"", "PersistentVolume", .cluster, none⟩,
   ⟨"apiextensions.k8s.io", "CustomResourceDefinition", .cluster, none⟩,
   ⟨"apiregistration.k8s.io", "APIService", .cluster, none⟩,
   ⟨rbac, "ClusterRole", .cluster, none⟩,
   ⟨rbac, "ClusterRoleBinding", .cluster, none⟩,
   ⟨admission, "MutatingWebhookConfiguration", .cluster, none⟩,
   ⟨admission, "ValidatingWebhookConfiguration", .cluster, none⟩,
   ⟨"scheduling.k8s.io", "PriorityClass", .cluster, none⟩,
   ⟨"storage.k8s.io", "StorageClass", .cluster, none⟩,
   ⟨"storage.k8s.io", "CSIDriver", .cluster, none⟩,
   ⟨"networking.k8s.io", "IngressClass", .cluster, none⟩,
   ⟨"cert-manager.io", "ClusterIssuer", .cluster, none⟩,
   ⟨"apps", "Deployment", .namespaced, some .deployment⟩,
   ⟨"apps", "DaemonSet", .namespaced, some .daemonSet⟩,
   ⟨"apps", "StatefulSet", .namespaced, none⟩,
   ⟨"batch", "Job", .namespaced, none⟩,
   ⟨"batch", "CronJob", .namespaced, none⟩,
   ⟨"", "ConfigMap", .namespaced, none⟩,
   ⟨"", "Secret", .namespaced, none⟩,
   ⟨"", "Service", .namespaced, none⟩,
   ⟨"", "ServiceAccount", .namespaced, none⟩,
   ⟨"", "PersistentVolumeClaim", .namespaced, none⟩,
   ⟨rbac, "Role", .namespaced, none⟩,
   ⟨rbac, "RoleBinding", .namespaced, none⟩,
   ⟨"networking.k8s.io", "Ingress", .namespaced, none⟩,
   ⟨"networking.k8s.io", "NetworkPolicy", .namespaced, none⟩,
   ⟨"policy", "PodDisruptionBudget", .namespaced, none⟩,
   ⟨"autoscaling", "HorizontalPodAutoscaler", .namespaced, none⟩,
   ⟨"coordination.k8s.io", "Lease", .namespaced, none⟩,
   ⟨"cert-manager.io", "Issuer", .namespaced, none⟩,
   ⟨"cert-manager.io", "Certificate", .namespaced, none⟩]

def find? (group kind : String) : Option KnownKind :=
  all.find? fun k => k.group = group && k.kind = kind

end KnownKind

/-- The namespace that a document declares; an empty one counts as none. -/
def declaredNs (ns : Option String) : Option String := ns.filter fun s => !s.isEmpty

/-- The scope of a kind. An unknown kind is namespaced if a namespace is declared. -/
def Scope.of (group kind : String) (declared : Option String) : Scope :=
  match KnownKind.find? group kind with
  | some k => k.scope
  | none => if (declaredNs declared).isSome then .namespaced else .cluster

/-- The workload that a tracked object is, if its health shows. -/
def Tracked.workload? (t : Tracked) : Option Workload :=
  (KnownKind.find? t.group t.kind).bind KnownKind.workload

/-! ## Prepared documents -/

/-- An object ready to be written, with its identity. -/
structure Prepared where
  object : Object
  key : Key
  deriving Repr, Inhabited

namespace Prepared

def tracked (p : Prepared) : Tracked := p.key.tracked

/-- The labels of an object after some are added. -/
def addLabels (own : Option (Table String String)) (labels : Table String String) :
    Option (Table String String) :=
  if labels.isEmpty then own else some ((own.getD []).union labels)

/-- Prepare a document. Namespaced objects without a namespace get the default one, cluster-scoped ones
lose any. -/
def ofDocument (doc : Json) (defaultNs : String) (labels : Table String String) :
    Except Error Prepared := do
  let o ← Object.ofDocument doc
  match o.type with
  | none => throw (.invalidManifest "document has no apiVersion/kind")
  | some t =>
    match o.metadata.name.filter fun s => !s.isEmpty with
    | none => throw (.invalidManifest s!"{t.kind} document has no metadata.name")
    | some name =>
      let ns :=
        match Scope.of t.group t.kind o.metadata.ns with
        | .namespaced => some ((declaredNs o.metadata.ns).getD defaultNs)
        | .cluster => none
      let metadata := { o.metadata with ns, labels := addLabels o.metadata.labels labels }
      return ⟨{ o with metadata }, ⟨t, ns, name⟩⟩

end Prepared

end Addons
