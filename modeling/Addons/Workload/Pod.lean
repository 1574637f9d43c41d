import Addons.Workload.Volume

/-!
# Shapes of pods

What a workload says of the pods it runs: containers with their probes and security settings, and where
the pods are to be placed.
-/

namespace Addons.Shape

/-- A key of a configuration object or of a secret. -/
def keyRef : Shape := .object [("key", .text), ("name", .text), ("optional", .bool)]

def env : Shape :=
  .object [("name", .text), ("value", .text),
    ("valueFrom", .object [("configMapKeyRef", keyRef), ("fieldRef", fieldRef),
      ("resourceFieldRef", resourceFieldRef), ("secretKeyRef", keyRef)])]

/-- All keys of a configuration object or of a secret as variables. -/
def envFrom : Shape :=
  let source : Shape := .object [("name", .text), ("optional", .bool)]
  .object [("configMapRef", source), ("prefix", .text), ("secretRef", source)]

def nameValue : Shape := .object (textFields ["name", "value"])

def exec : Shape := .object [("command", .list .text)]

def httpGet : Shape :=
  .object [("host", .text), ("httpHeaders", .list nameValue), ("path", .text), ("port", .intOrText),
    ("scheme", .text)]

def tcpSocket : Shape := .object [("host", .text), ("port", .intOrText)]

/-- What is done when a container starts or stops. -/
def hook : Shape :=
  .object [("exec", exec), ("httpGet", httpGet), ("sleep", .object [("seconds", .int64)]),
    ("tcpSocket", tcpSocket)]

def probe : Shape :=
  .object [("exec", exec), ("failureThreshold", .int32),
    ("grpc", .object [("port", .int32), ("service", .text)]), ("httpGet", httpGet),
    ("initialDelaySeconds", .int32), ("periodSeconds", .int32), ("successThreshold", .int32),
    ("tcpSocket", tcpSocket), ("terminationGracePeriodSeconds", .int64), ("timeoutSeconds", .int32)]

/-- A profile that restricts what processes may do. -/
def profile : Shape := .object (textFields ["localhostProfile", "type"])

def securityLabels : Shape := .object (textFields ["level", "role", "type", "user"])

def windowsOptions : Shape :=
  .object (("hostProcess", .bool)
    :: textFields ["gmsaCredentialSpec", "gmsaCredentialSpecName", "runAsUserName"])

/-- The security settings that pods and containers share. -/
def commonSecurity : List (String × Shape) :=
  [("appArmorProfile", profile), ("runAsGroup", .int64), ("runAsNonRoot", .bool),
    ("runAsUser", .int64), ("seLinuxOptions", securityLabels), ("seccompProfile", profile),
    ("windowsOptions", windowsOptions)]

def containerSecurity : Shape :=
  .object (commonSecurity ++ [("allowPrivilegeEscalation", .bool),
    ("capabilities", .object [("add", .list .text), ("drop", .list .text)]), ("privileged", .bool),
    ("procMount", .text), ("readOnlyRootFilesystem", .bool)])

def podSecurity : Shape :=
  .object (commonSecurity ++ [("fsGroup", .int64), ("fsGroupChangePolicy", .text),
    ("supplementalGroups", .list .int64), ("supplementalGroupsPolicy", .text),
    ("sysctls", .list nameValue)])

def containerPort : Shape :=
  .object [("containerPort", .int32), ("hostIP", .text), ("hostPort", .int32), ("name", .text),
    ("protocol", .text)]

def mount : Shape :=
  .object (("readOnly", .bool) :: textFields ["mountPath", "mountPropagation", "name",
    "recursiveReadOnly", "subPath", "subPathExpr"])

def resources : Shape :=
  .object [("claims", .list (.object (textFields ["name", "request"]))), ("limits", .texts),
    ("requests", .texts)]

def containerFields : List (String × Shape) :=
  [("args", .list .text), ("command", .list .text), ("env", .list env), ("envFrom", .list envFrom),
    ("image", .text), ("imagePullPolicy", .text),
    ("lifecycle", .object [("postStart", hook), ("preStop", hook)]), ("livenessProbe", probe),
    ("name", .text), ("ports", .list containerPort), ("readinessProbe", probe),
    ("resizePolicy", .list (.object (textFields ["resourceName", "restartPolicy"]))),
    ("resources", resources), ("restartPolicy", .text), ("securityContext", containerSecurity),
    ("startupProbe", probe), ("stdin", .bool), ("stdinOnce", .bool), ("terminationMessagePath", .text),
    ("terminationMessagePolicy", .text), ("tty", .bool),
    ("volumeDevices", .list (.object (textFields ["devicePath", "name"]))),
    ("volumeMounts", .list mount), ("workingDir", .text)]

def container : Shape := .object containerFields

/-- A container that is added to a running pod. -/
def ephemeralContainer : Shape := .object (("targetContainerName", .text) :: containerFields)

/-- One condition that a node has to satisfy. -/
def nodeRequirements : Shape :=
  .list (.object [("key", .text), ("operator", .text), ("values", .list .text)])

def nodeTerm : Shape :=
  .object [("matchExpressions", nodeRequirements), ("matchFields", nodeRequirements)]

def nodeAffinity : Shape :=
  .object [
    ("preferredDuringSchedulingIgnoredDuringExecution",
      .list (.object [("preference", nodeTerm), ("weight", .int32)])),
    ("requiredDuringSchedulingIgnoredDuringExecution",
      .object [("nodeSelectorTerms", .list nodeTerm)])]

def podTerm : Shape :=
  .object [("labelSelector", selector), ("matchLabelKeys", .list .text),
    ("mismatchLabelKeys", .list .text), ("namespaceSelector", selector), ("namespaces", .list .text),
    ("topologyKey", .text)]

/-- Pods that a pod is to be placed near to, or away from. -/
def podAffinity : Shape :=
  .object [
    ("preferredDuringSchedulingIgnoredDuringExecution",
      .list (.object [("podAffinityTerm", podTerm), ("weight", .int32)])),
    ("requiredDuringSchedulingIgnoredDuringExecution", .list podTerm)]

def affinity : Shape :=
  .object [("nodeAffinity", nodeAffinity), ("podAffinity", podAffinity),
    ("podAntiAffinity", podAffinity)]

def spread : Shape :=
  .object [("labelSelector", selector), ("matchLabelKeys", .list .text), ("maxSkew", .int32),
    ("minDomains", .int32), ("nodeAffinityPolicy", .text), ("nodeTaintsPolicy", .text),
    ("topologyKey", .text), ("whenUnsatisfiable", .text)]

def toleration : Shape :=
  .object (("tolerationSeconds", .int64) :: textFields ["effect", "key", "operator", "value"])

/-- Where pods run, and who they run as. -/
def placement : List (String × Shape) :=
  [("affinity", affinity), ("nodeSelector", .texts), ("overhead", .texts), ("priority", .int32),
    ("readinessGates", .list (.object [("conditionType", .text)])),
    ("resourceClaims", .list (.object
      (textFields ["name", "resourceClaimName", "resourceClaimTemplateName"]))),
    ("schedulingGates", .list localRef), ("securityContext", podSecurity),
    ("tolerations", .list toleration), ("topologySpreadConstraints", .list spread)]
  ++ textFields ["nodeName", "preemptionPolicy", "priorityClassName", "runtimeClassName",
    "schedulerName", "serviceAccount", "serviceAccountName"]

/-- What pods see of their network. -/
def network : List (String × Shape) :=
  [("dnsConfig", .object [("nameservers", .list .text), ("options", .list nameValue),
      ("searches", .list .text)]),
    ("hostAliases", .list (.object [("hostnames", .list .text), ("ip", .text)]))]
  ++ textFields ["dnsPolicy", "hostname", "subdomain"]

def pod : Shape :=
  .object ([("activeDeadlineSeconds", .int64), ("containers", .list container),
    ("ephemeralContainers", .list ephemeralContainer), ("imagePullSecrets", .list localRef),
    ("initContainers", .list container), ("os", localRef), ("restartPolicy", .text),
    ("terminationGracePeriodSeconds", .int64), ("volumes", .list volume)]
  ++ boolFields ["automountServiceAccountToken", "enableServiceLinks", "hostIPC", "hostNetwork",
    "hostPID", "hostUsers", "setHostnameAsFQDN", "shareProcessNamespace"]
  ++ placement ++ network)

def podTemplate : Shape := .object [("metadata", .metadata), ("spec", pod)]

end Addons.Shape
