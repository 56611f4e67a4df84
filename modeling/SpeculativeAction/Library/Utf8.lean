import SpeculativeAction.Library.JsonString

/-! The UTF-8 bytes of a string of UTF-16 code units. A surrogate without its partner has the
bytes of the replacement character, so a string may be encoded in parts as long as no pair is
cut in two.
-/

namespace SpeculativeAction.Library

/-- One code unit that is no half of a pair. -/
def utf8Unit (unit : CodeUnit) : List UInt8 :=
  let code := unit.val
  if code < 128 then [.ofNat code]
  else if code < 2048 then [.ofNat (192 + code / 64), .ofNat (128 + code % 64)]
  else if isLeadSurrogate unit || isTrailSurrogate unit then [239, 191, 189]
  else
    [.ofNat (224 + code / 4096), .ofNat (128 + code / 64 % 64), .ofNat (128 + code % 64)]

def utf8Pair (lead trail : CodeUnit) : List UInt8 :=
  let code := 65536 + (lead.val - 55296) * 1024 + (trail.val - 56320)
  [
    .ofNat (240 + code / 262144), .ofNat (128 + code / 4096 % 64), .ofNat (128 + code / 64 % 64),
    .ofNat (128 + code % 64)
  ]

def utf8 : JsString → List UInt8
  | [] => []
  | [last] => utf8Unit last
  | lead :: trail :: rest =>
      if isLeadSurrogate lead && isTrailSurrogate trail then utf8Pair lead trail ++ utf8 rest
      else utf8Unit lead ++ utf8 (trail :: rest)

/-- No pair is cut in two between the strings. -/
def PairsWhole (text more : JsString) : Prop :=
  ∀ last ∈ text.getLast?, ∀ first ∈ more.head?,
    (isLeadSurrogate last && isTrailSurrogate first) = false

theorem PairsWhole.of_cons {unit : CodeUnit} {text more : JsString}
    (whole : PairsWhole (unit :: text) more)
    : PairsWhole text more := by
  intro last isLast
  refine whole last ?_
  cases text with
  | nil => cases isLast
  | cons next rest => rwa [List.getLast?_cons_cons]

/-- Strings between which no pair is cut are encoded one after the other, by induction over the
pairs and units of the first one.
-/
theorem utf8_append {text more : JsString} (whole : PairsWhole text more)
    : utf8 (text ++ more) = utf8 text ++ utf8 more := by
  induction text using utf8.induct with
  | case1 => rfl
  | case2 last =>
      cases more with
      | nil => rw [List.append_nil, utf8, List.append_nil]
      | cons first rest =>
          have apart := whole last rfl first rfl
          have cut : utf8 (last :: first :: rest) = utf8Unit last ++ utf8 (first :: rest) := by
            conv => lhs; rw [utf8]
            exact if_neg (Bool.eq_false_iff.mp apart)
          exact cut
  | case3 lead trail rest pair ih =>
      have later := ih whole.of_cons.of_cons
      rw [List.cons_append, List.cons_append, utf8, if_pos pair, utf8, if_pos pair, later,
        List.append_assoc]
  | case4 lead trail rest apart ih =>
      have later := ih whole.of_cons
      rw [List.cons_append] at later
      rw [List.cons_append, List.cons_append, utf8, if_neg apart, utf8, if_neg apart, later,
        List.append_assoc]

/-- The euro sign, a pair and half of a pair. -/
example
    : utf8 [8364, 55357, 56832, 55357] = [226, 130, 172, 240, 159, 152, 128, 239, 191, 189] := by
  decide

end SpeculativeAction.Library
