import Addons.Workload.Shape

/-!
# Shapes of volumes

A volume is a name and a source of its content, out of many kinds of sources.
-/

namespace Addons.Shape

/-- An object all of whose fields are texts. -/
def textFields (names : List String) : List (String × Shape) := names.map fun n => (n, .text)

def boolFields (names : List String) : List (String × Shape) := names.map fun n => (n, .bool)

/-- A reference to an object of the same namespace. -/
def localRef : Shape := .object [("name", .text)]

/-- A field of a pod, named by its path. -/
def fieldRef : Shape := .object [("apiVersion", .text), ("fieldPath", .text)]

/-- A resource of a container, in units of a divisor. -/
def resourceFieldRef : Shape :=
  .object [("containerName", .text), ("divisor", .text), ("resource", .text)]

/-- Keys and the files they become. -/
def keyPaths : Shape := .list (.object [("key", .text), ("mode", .int32), ("path", .text)])

/-- Files with fields of the pod. -/
def podFiles : Shape :=
  .list (.object [("fieldRef", fieldRef), ("mode", .int32), ("path", .text),
    ("resourceFieldRef", resourceFieldRef)])

/-- What one of several combined sources gives. -/
def projection : Shape :=
  .object [
    ("clusterTrustBundle", .object [("labelSelector", selector), ("name", .text), ("optional", .bool),
      ("path", .text), ("signerName", .text)]),
    ("configMap", .object [("items", keyPaths), ("name", .text), ("optional", .bool)]),
    ("downwardAPI", .object [("items", podFiles)]),
    ("secret", .object [("items", keyPaths), ("name", .text), ("optional", .bool)]),
    ("serviceAccountToken", .object [("audience", .text), ("expirationSeconds", .int64),
      ("path", .text)])]

/-- A claim on storage that is made with its pod. -/
def claimTemplate : Shape :=
  .object [
    ("metadata", .metadata),
    ("spec", .object [
      ("accessModes", .list .text),
      ("dataSource", .object (textFields ["apiGroup", "kind", "name"])),
      ("dataSourceRef", .object (textFields ["apiGroup", "kind", "name", "namespace"])),
      ("resources", .object [("limits", .texts), ("requests", .texts)]),
      ("selector", selector),
      ("storageClassName", .text), ("volumeAttributesClassName", .text), ("volumeMode", .text),
      ("volumeName", .text)])]

/-- Sources within the cluster and on its nodes. -/
def clusterSources : List (String × Shape) :=
  [("configMap", .object [("defaultMode", .int32), ("items", keyPaths), ("name", .text),
      ("optional", .bool)]),
    ("csi", .object [("driver", .text), ("fsType", .text), ("nodePublishSecretRef", localRef),
      ("readOnly", .bool), ("volumeAttributes", .texts)]),
    ("downwardAPI", .object [("defaultMode", .int32), ("items", podFiles)]),
    ("emptyDir", .object [("medium", .text), ("sizeLimit", .text)]),
    ("ephemeral", .object [("volumeClaimTemplate", claimTemplate)]),
    ("flexVolume", .object [("driver", .text), ("fsType", .text), ("options", .texts),
      ("readOnly", .bool), ("secretRef", localRef)]),
    ("gitRepo", .object (textFields ["directory", "repository", "revision"])),
    ("hostPath", .object (textFields ["path", "type"])),
    ("image", .object (textFields ["pullPolicy", "reference"])),
    ("persistentVolumeClaim", .object [("claimName", .text), ("readOnly", .bool)]),
    ("projected", .object [("defaultMode", .int32), ("sources", .list projection)]),
    ("secret", .object [("defaultMode", .int32), ("items", keyPaths), ("optional", .bool),
      ("secretName", .text)])]

/-- Sources on storage systems. -/
def storageSources : List (String × Shape) :=
  [("awsElasticBlockStore", .object [("fsType", .text), ("partition", .int32), ("readOnly", .bool),
      ("volumeID", .text)]),
    ("azureDisk", .object (("readOnly", .bool)
      :: textFields ["cachingMode", "diskName", "diskURI", "fsType", "kind"])),
    ("azureFile", .object [("readOnly", .bool), ("secretName", .text), ("shareName", .text)]),
    ("cephfs", .object [("monitors", .list .text), ("path", .text), ("readOnly", .bool),
      ("secretFile", .text), ("secretRef", localRef), ("user", .text)]),
    ("cinder", .object [("fsType", .text), ("readOnly", .bool), ("secretRef", localRef),
      ("volumeID", .text)]),
    ("fc", .object [("fsType", .text), ("lun", .int32), ("readOnly", .bool),
      ("targetWWNs", .list .text), ("wwids", .list .text)]),
    ("flocker", .object (textFields ["datasetName", "datasetUUID"])),
    ("gcePersistentDisk", .object [("fsType", .text), ("partition", .int32), ("pdName", .text),
      ("readOnly", .bool)]),
    ("glusterfs", .object [("endpoints", .text), ("path", .text), ("readOnly", .bool)]),
    ("iscsi", .object ([("lun", .int32), ("portals", .list .text), ("secretRef", localRef)]
      ++ boolFields ["chapAuthDiscovery", "chapAuthSession", "readOnly"]
      ++ textFields ["fsType", "initiatorName", "iqn", "iscsiInterface", "targetPortal"])),
    ("nfs", .object [("path", .text), ("readOnly", .bool), ("server", .text)]),
    ("photonPersistentDisk", .object (textFields ["fsType", "pdID"])),
    ("portworxVolume", .object [("fsType", .text), ("readOnly", .bool), ("volumeID", .text)]),
    ("quobyte", .object (("readOnly", .bool)
      :: textFields ["group", "registry", "tenant", "user", "volume"])),
    ("rbd", .object ([("monitors", .list .text), ("readOnly", .bool), ("secretRef", localRef)]
      ++ textFields ["fsType", "image", "keyring", "pool", "user"])),
    ("scaleIO", .object ([("readOnly", .bool), ("secretRef", localRef), ("sslEnabled", .bool)]
      ++ textFields ["fsType", "gateway", "protectionDomain", "storageMode", "storagePool", "system",
        "volumeName"])),
    ("storageos", .object ([("readOnly", .bool), ("secretRef", localRef)]
      ++ textFields ["fsType", "volumeName", "volumeNamespace"])),
    ("vsphereVolume", .object
      (textFields ["fsType", "storagePolicyID", "storagePolicyName", "volumePath"]))]

def volume : Shape := .object (("name", .text) :: clusterSources ++ storageSources)

end Addons.Shape
