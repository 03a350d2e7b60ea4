import KeyOS.Lib.SortedMap

/-!
# Manifests

What an app declares: the servers that it owns with their messages, and the messages of other
servers that it may send.
-/

namespace Manifests

/-- `[u8; APP_ID_BYTE_LEN]` -/
abbrev AppId := { bytes : List UInt8 // bytes.length = 16 }

def AppId.ofBytes (bytes : List UInt8) : Option AppId :=
  if h : bytes.length = 16 then some ⟨bytes, h⟩ else none

/-- The signature a sender must carry to be granted a message permission. -/
inductive RequiredSignature where
  | thirdParty
  | foundation
deriving DecidableEq, Repr

/-- How a message permission is granted to a sideloaded app. -/
inductive ApprovalBehavior where
  | autoAllow
  | grantOnFirstUse
  | notUserGrantable
deriving DecidableEq, Repr

structure Message where
  id : Nat
  permissionGroup : Option String
  requiredSignature : Option RequiredSignature
  approval : ApprovalBehavior
deriving DecidableEq, Repr

structure Manifest where
  appId : AppId
  servers : SortedMap String (SortedMap String Message)
  fixedSids : SortedMap String String
  permissions : SortedMap String (SortedSet String)

namespace Manifest

/-- `manifest_server_names` -/
def serverNames (m : Manifest) : Finset String := (m.servers.keys ++ m.fixedSids.keys).toFinset

/-- The manifest declares the message under the server name. -/
def message? (m : Manifest) (serverName messageName : String) : Option Message :=
  m.servers.get? serverName >>= fun messages => messages.get? messageName

/-- The manifest asks for the permission to send the message to the server. -/
def Lists (m : Manifest) (serverName messageName : String) : Prop :=
  ∃ messages, (serverName, messages) ∈ m.permissions.entries ∧ messageName ∈ messages.elements

end Manifest

end Manifests
