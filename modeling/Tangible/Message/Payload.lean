import Tangible.Message.Run

/-!
# Payloads

Control values, data, signals and raw samples that belong to a session.
-/

namespace Tangible

open Osc (Arg)

/-! ## Control values -/

structure Control where
  sessionId : UInt32 := 0
  values : List Single := []
deriving BEq, DecidableEq

namespace Control

def args (c : Control) : List Arg :=
  .ofId c.sessionId :: Run.ofFloats c.values

def ofArgs? : List Arg → Option Control
  | .int session :: rest => (Run.floats? rest).map (⟨session.toUInt32, ·⟩)
  | _ => none

def text (c : Control) : String :=
  s!"s_id={c.sessionId} " ++ floatsText c.values

end Control

/-! ## Data -/

inductive Content where
  | plain (text : String)
  | binary (bytes : List UInt8)
deriving BEq, DecidableEq

structure Data where
  sessionId : UInt32 := 0
  mime : String := ""
  content : Content := .plain ""
deriving BEq, DecidableEq

namespace Data

def args (d : Data) : List Arg :=
  [.ofId d.sessionId, .string d.mime,
    match d.content with
    | .plain text => .string text
    | .binary bytes => .blob bytes]

def ofArgs? : List Arg → Option Data
  | [.int session, .string mime, .string text] => some ⟨session.toUInt32, mime, .plain text⟩
  | [.int session, .string mime, .blob bytes] => some ⟨session.toUInt32, mime, .binary bytes⟩
  | _ => none

/-- A text is quoted, of binary content only the length is told. -/
def text (d : Data) : String :=
  s!"s_id={d.sessionId} mime=" ++ d.mime ++
    match d.content with
    | .plain text => " text=" ++ Text.quoted text
    | .binary bytes => s!" blob[{bytes.length}]"

end Data

/-! ## Signals -/

structure Signal where
  sessionId : UInt32 := 0
  componentId : UInt32 := 0
  targets : List UInt32 := []
deriving BEq, DecidableEq, Repr

namespace Signal

def args (s : Signal) : List Arg :=
  Run.ofIds (s.sessionId :: s.componentId :: s.targets)

def ofArgs? : List Arg → Option Signal
  | .int session :: .int component :: rest =>
    (Run.ids? rest).map (⟨session.toUInt32, component.toUInt32, ·⟩)
  | _ => none

def text (s : Signal) : String :=
  s!"s_id={s.sessionId} c_id={s.componentId} targets=" ++ idsText s.targets

end Signal

/-! ## Raw samples -/

structure RawSamples where
  sessionId : UInt32 := 0
  /-- The distance between two samples. -/
  spacing : Single := 0
  samples : List UInt8 := []
deriving BEq, DecidableEq

namespace RawSamples

def args (r : RawSamples) : List Arg :=
  [.ofId r.sessionId, .float r.spacing, .blob r.samples]

def ofArgs? : List Arg → Option RawSamples
  | [.int session, .float spacing, .blob samples] => some ⟨session.toUInt32, spacing, samples⟩
  | _ => none

def text (r : RawSamples) : String :=
  s!"s_id={r.sessionId} width=" ++ Decimal.plain r.spacing ++ s!" samples[{r.samples.length}]"

end RawSamples

end Tangible
