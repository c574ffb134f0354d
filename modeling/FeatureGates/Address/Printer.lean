import FeatureGates.Address

/-!
Writing addresses.  IPv4 addresses are written as four octets.  IPv6 addresses are written with
lowercase hexadecimal groups, the first of the longest stretches of two or more zero groups left
out, and a mapped address shows the IPv4 address that it stands for.
-/

namespace FeatureGates
namespace Address

def v4Chars (bits : BitVec 32) : List Char :=
  List.intercalate ['.'] ((octets bits).map (Nat.toDigits 10))

def groupChars (groups : List Nat) : List Char :=
  List.intercalate [':'] (groups.map (Nat.toDigits 16))

/-- How many zero groups come first. -/
def zerosAtFront (groups : List Nat) : Nat := (groups.takeWhile (· = 0)).length

/-- Start and length of the first of the longest stretches of zero groups. -/
def longestZeros (groups : List Nat) : Nat × Nat :=
  (List.range groups.length).foldl
    (fun best i =>
      let run := zerosAtFront (groups.drop i)
      if best.2 < run then (i, run) else best)
    (0, 0)

def v6Chars (bits : BitVec 128) : List Char :=
  match mapped? bits with
  | some inner => "::ffff:".toList ++ v4Chars inner
  | none =>
    let gs := groups bits
    let (start, run) := longestZeros gs
    if 1 < run then groupChars (gs.take start) ++ [':', ':'] ++ groupChars (gs.drop (start + run))
    else groupChars gs

def chars : Address → List Char
  | v4 bits => v4Chars bits
  | v6 bits => v6Chars bits

def toText (a : Address) : String := String.ofList a.chars

end Address
end FeatureGates
