import ItemStore.Failure.Basic

/-
  What a failure tells: its message, its context, the failure behind it, and its text, which is
  the message followed by the context. Offsets into a source count characters; a negative one
  counts from the end.
-/

namespace ItemStore

/-- The number of characters of a text before an offset; an offset before the start or past the
end stands for the start or the end. -/
def charactersBefore (offset : Int) (cs : List Char) : Nat :=
  if offset < 0 then (offset + cs.length).toNat else min offset.toNat cs.length

/-- The size of a text in bytes of UTF-8. -/
def byteSize : List Char → Nat
  | [] => 0
  | c :: cs => c.utf8Size + byteSize cs

/-- An offset into a source in bytes. -/
def byteOffset (source : String) (offset : Int) : Nat :=
  byteSize (source.toList.take (charactersBefore offset source.toList))

/-- A source from an offset on. -/
def remainder (source : String) (offset : Int) : String :=
  String.ofList (source.toList.drop (charactersBefore offset source.toList))

namespace Failure

/-- The message, without the context. -/
def message : Failure → String
  | .general m _ _ => m
  | .validation m _ _ => m
  | .compile m _ _ => m
  | .marshal m _ _ => m
  | .itemNotFound table key _ =>
    "Item not found in table '" ++ table ++ "' with key: " ++ key.shown
  | .conflict m _ _ => m
  | .connection m _ _ => m
  | .retryable m _ _ _ => m
  | .service e => e.text
  | .incident i => i.text
  | .invalid _ => ""
  | .fault _ => ""

/-- The failure that caused this one. -/
def cause : Failure → Option Failure
  | .general _ o _ => o
  | .validation _ _ o => o
  | .marshal _ _ o => o
  | .itemNotFound _ _ o => o
  | .conflict _ _ o => o
  | .connection _ o _ => o
  | .retryable _ _ o _ => o
  | _ => none

/-- The errors that a validation failure lists. -/
def errors : Failure → Value
  | .validation _ errors _ => if errors.isTruthy then errors else .map []
  | .compile _ source (some offset) =>
    .record [("offset", .int offset), ("byte_offset", .int (byteOffset source offset)),
      ("remainder", .text (remainder source offset))]
  | .marshal _ wire _ => .record [("wire_value", wire)]
  | _ => .map []

/-- A context with one entry, if its value is present. -/
def contextOf (name : String) (v : Value) : List (Value × Value) :=
  if v.isTruthy then [(.text name, v)] else []

/-- The values that belong to the failure. -/
def context : Failure → List (Value × Value)
  | .general _ _ context => context
  | .connection _ _ context => context
  | .itemNotFound table key _ => [(.text "table_name", .text table), (.text "key", key)]
  | .conflict _ resource _ => contextOf "resource_id" resource
  | .retryable _ after _ _ => contextOf "retry_after_seconds" after
  | f => contextOf "validation_errors" f.errors

/-- The message followed by the context, where there is one. -/
def text (f : Failure) : String :=
  match f.context with
  | [] => f.message
  | context =>
    f.message ++ " (Context: " ++
      joinWith ", " (context.map fun e => e.1.shown ++ "=" ++ e.2.shown) ++ ")"

/-- The name of a failure's kind; misused values and refused fields have none. -/
def name : Failure → String
  | .general .. => "DynamoDBWrapperError"
  | .validation .. => "ValidationError"
  | .compile .. => "CompileError"
  | .marshal .. => "MarshalError"
  | .itemNotFound .. => "ItemNotFoundError"
  | .conflict .. => "ConflictError"
  | .connection .. => "ConnectionError"
  | .retryable .. => "RetryableError"
  | .service _ => "ClientError"
  | .incident i => i.name
  | .invalid _ => ""
  | .fault _ => ""

/-- The kinds of the library that a failure belongs to, from the closest to the widest. -/
def kinds (f : Failure) : List String :=
  match f with
  | .general .. => [f.name]
  | .compile .. | .marshal .. => [f.name, "ValidationError", "DynamoDBWrapperError"]
  | .service _ | .incident _ | .invalid _ | .fault _ => []
  | _ => [f.name, "DynamoDBWrapperError"]

/-- A failure of the library as it shows inside other values, with its cause's text. -/
def quotedWith (cause : String) (f : Failure) : String :=
  f.name ++ "(message=" ++ Text.quoted f.message ++ ", original_error=" ++ cause ++
    ", context=" ++ (Value.map f.context).quoted ++ ")"

mutual

/-- A failure as it shows inside other values. -/
def quoted : Failure → String
  | .general m o c => quotedWith (quotedCause o) (.general m o c)
  | .validation m e o => quotedWith (quotedCause o) (.validation m e o)
  | .compile m s o => quotedWith "None" (.compile m s o)
  | .marshal m w o => quotedWith (quotedCause o) (.marshal m w o)
  | .itemNotFound t k o => quotedWith (quotedCause o) (.itemNotFound t k o)
  | .conflict m r o => quotedWith (quotedCause o) (.conflict m r o)
  | .connection m o c => quotedWith (quotedCause o) (.connection m o c)
  | .retryable m a o u => quotedWith (quotedCause o) (.retryable m a o u)
  | .service e => "ClientError(" ++ Text.quoted e.text ++ ")"
  | .incident i => i.quoted
  | .invalid _ => ""
  | .fault _ => ""

/-- The failure behind another, or that there is none. -/
def quotedCause : Option Failure → String
  | none => "None"
  | some f => quoted f

end

end Failure

end ItemStore
