import Unveil.Metadata.RuntimeHeader
import Unveil.Declaration.Basic

/-!
What a module carries besides intermediate code. Machine code and the tables
that lead to it are tied to exact file positions, so a module that has any is
written differently.
-/

namespace Unveil

/-- One reason to treat a module as partly native. -/
inductive NativePart where
  | notIlOnly
  | vtableFixups (region : Region)
  | entryPoint (address : UInt32)
  | nativeHeader (region : Region)
  | exportJumps (region : Region)
  | method (token : Token) (address : UInt32)
  deriving DecidableEq, Repr

namespace NativePart

def addressText (address : UInt32) : String :=
  "RVA 0x" ++ Hexadecimal.padded 8 (Hexadecimal.upper address.toNat)

def regionText (region : Region) : String :=
  addressText region.address ++ " (" ++ toString region.size.toNat ++ " bytes)"

def text : NativePart → String
  | notIlOnly => "ILONLY flag not set"
  | vtableFixups region => "vtable fixups at " ++ regionText region
  | entryPoint address => "native entry point at " ++ addressText address
  | nativeHeader region => "managed native header at " ++ regionText region
  | exportJumps region => "export address table jumps at " ++ regionText region
  | method token address => "native method " ++ token.text ++ " at " ++ addressText address

end NativePart

/-- The native parts of a module: those that its header names, and then the
methods with a native body in the order of their rows. -/
structure Payload where
  parts : List NativePart
  deriving DecidableEq, Repr

namespace Payload

def partIf (condition : Bool) (part : NativePart) : List NativePart :=
  if condition then [part] else []

def ofHeader (header : RuntimeHeader) : List NativePart :=
  partIf (!header.isIlOnly) .notIlOnly ++
  partIf header.vtableFixups.isGiven (.vtableFixups header.vtableFixups) ++
  partIf header.hasNativeEntryPoint (.entryPoint header.entryPoint) ++
  partIf header.nativeHeader.isGiven (.nativeHeader header.nativeHeader) ++
  partIf header.exportJumps.isGiven (.exportJumps header.exportJumps)

def classify (header : RuntimeHeader) (methods : List MethodDecl) : Payload :=
  ⟨ofHeader header ++
    (methods.filter MethodDecl.isNative).map fun method =>
      .method method.token method.address⟩

def isIlOnly (payload : Payload) : Bool := payload.parts.isEmpty

end Payload

/-- The ways to write a module. The managed way lays the tables stream out
anew and brings the checksum up to date; the native-aware way touches nothing
but the attribute words. -/
inductive Strategy where
  | managed | nativeAware
  deriving DecidableEq, Repr

namespace Strategy

def text : Strategy → String
  | managed => "managed"
  | nativeAware => "native-aware"

/-- Without a wish of the caller, native parts decide. -/
def forPayload (payload : Payload) : Strategy :=
  if payload.isIlOnly then managed else nativeAware

end Strategy

end Unveil
