import RegionAlloc.Listing

/-!
# Log records

The allocators report what they did as records. A record says what happened; its level and its text
are functions of it.
-/

namespace RegionAlloc

inductive Level where
  | debug
  | trace
  | warn
  deriving DecidableEq, Repr

def Level.text : Level → String
  | .debug => "DEBUG"
  | .trace => "TRACE"
  | .warn => "WARN"

/-- What a tagged heap reports. -/
inductive TaggedRecord where
  | formatted (size start endMarker free : Nat)
  /-- No word holds the padded size of a request. -/
  | rejected (request : Nat)
  /-- A block of `padded` bytes was wanted with fewer bytes free. -/
  | exhausted (padded free : Nat)
  | noBlock (padded : Nat)
  | took (block size : Nat)
  | returned (address size : Nat)
  deriving DecidableEq, Repr

/-- What a two-list heap reports. -/
inductive TwoListRecord where
  | formatted (size usable : Nat)
  | took (request address size : Nat)
  | noBlock (request : Nat)
  /-- An address that is no place for a block was released. -/
  | outside (address : Nat)
  /-- An address that no used block has was released. -/
  | unknown (address : Nat)
  | returned (address size : Nat)
  deriving DecidableEq, Repr

inductive Record where
  | tagged (record : TaggedRecord)
  | twoList (record : TwoListRecord)
  deriving DecidableEq, Repr

/-- Calls that hand out or take back a block are traced, all else of a tagged heap is for
debugging. -/
def TaggedRecord.level : TaggedRecord → Level
  | .formatted .. | .rejected _ | .exhausted .. | .noBlock _ => .debug
  | .took .. | .returned .. => .trace

/-- The wording of a tagged heap's record, with addresses written as `naming` says. -/
def TaggedRecord.text (naming : Naming) : TaggedRecord → String
  | .formatted size start endMarker free =>
    s!"coalescing heap formatted {size} bytes: start {hexText start}, " ++
      s!"end marker {hexText endMarker}, {free} bytes free"
  | .rejected request => s!"coalescing allocate({request}) rejected: padded size overflows"
  | .exhausted padded free =>
    s!"coalescing allocate failed: {padded} bytes wanted, {free} bytes free"
  | .noBlock padded => s!"coalescing allocate failed: no free block of {padded} bytes"
  | .took block size => s!"coalescing allocate: block {hexText block} of {size} bytes"
  | .returned address size =>
    s!"coalescing deallocate({naming address}) returned {size} bytes"

/-- An ignored release is a warning; calls that hand out or take back a block are traced. -/
def TwoListRecord.level : TwoListRecord → Level
  | .formatted .. | .noBlock _ => .debug
  | .took .. | .returned .. => .trace
  | .outside _ | .unknown _ => .warn

def TwoListRecord.text (naming : Naming) : TwoListRecord → String
  | .formatted size usable => s!"free-list allocator formatted {size} bytes, {usable} usable"
  | .took request address size =>
    s!"free-list allocate({request}) -> {naming address} ({size} bytes)"
  | .noBlock request =>
    s!"free-list allocate({request}) failed: no free block is large enough"
  | .outside address =>
    s!"free-list deallocate({naming address}) ignored: pointer is outside the arena"
  | .unknown address =>
    s!"free-list deallocate({naming address}) ignored: not an allocated block"
  | .returned address size =>
    s!"free-list deallocate({naming address}) returned {size} bytes"

def Record.level : Record → Level
  | .tagged record => record.level
  | .twoList record => record.level

def Record.text (naming : Naming) : Record → String
  | .tagged record => record.text naming
  | .twoList record => record.text naming

end RegionAlloc
