import CallSchema.FileTree.Basic

set_option autoImplicit false

namespace CallSchema.Content

def ofBytes (bytes : ByteArray) : Content :=
  match String.fromUTF8? bytes with
  | some s => .text s.toList
  | none => .bytes bytes.toList

def toBytes : Content → ByteArray
  | .text t => (String.ofList t).toUTF8
  | .bytes values => ⟨values.toArray⟩

end CallSchema.Content
