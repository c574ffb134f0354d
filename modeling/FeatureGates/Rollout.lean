import FeatureGates.Digest.Sha1
import FeatureGates.Text.Digits
import FeatureGates.Text.Folding

/-!
Gradual rollout.  A customer falls into one of a hundred buckets of a gate, and a gate exposed to
`n` percent is on for the customers in the first `n` buckets.  The bucket is taken from a digest of
the gate's name and the customer's id, so it is the same in every process and at every time.
-/

namespace FeatureGates
namespace Rollout

def buckets : Nat := 100

/-- How many hexadecimal digits of the digest are read as a number. -/
def leadingDigits : Nat := 15

/-- The text that is digested.  The name is folded, so its spelling does not matter; the id is
taken as it is. -/
def key (gate customer : String) : String := Text.fold gate ++ "." ++ customer

/-- One past the largest number that the leading digits can make. -/
def leadingBound : Nat := 1 <<< (leadingDigits * 4)

def digest (text : String) : BitVec 160 := Sha1.digest text.toUTF8.data.toList

/-- The number that the leading hexadecimal digits of a digest make. -/
def leading (digest : BitVec 160) : BitVec 64 :=
  let digits := (Text.hexPairs (Sha1.bytes digest)).take leadingDigits
  BitVec.ofNat 64 ((Text.number? 16 UInt64.size digits).getD 0)

/-- The bucket of a number: the buckets divide the range of `leading` evenly.  The product is taken
at twice the width of the number. -/
def bucketOf (n : BitVec 64) : BitVec 32 :=
  (n.setWidth 128 * BitVec.ofNat 128 buckets / BitVec.ofNat 128 leadingBound).setWidth 32

def bucket (gate customer : String) : Nat := (bucketOf (leading (digest (key gate customer)))).toNat

/-- Whether a gate exposed to `exposure` percent is on.  Without a customer there is nothing to
take a bucket from, and only full exposure is on. -/
def reaches (gate : String) (customer : Option String) (exposure : Nat) : Bool :=
  if buckets ≤ exposure then true
  else if exposure = 0 then false
  else match customer with
    | some id => bucket gate id < exposure
    | none => false

end Rollout
end FeatureGates
