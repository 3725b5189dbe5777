import QosOlsr.Packet

/-!
# The hash of an address

`hashing.c`: the hash function that chooses the bucket of an address in the
tables of a node.
-/

namespace QosOlsr

structure JenkinsState where
  a : UInt32
  b : UInt32
  c : UInt32

/-- One line of `__jhash_mix`; shifts to the right and to the left. -/
def mixLine (right left right' : UInt32) (st : JenkinsState) : JenkinsState :=
  let a := (st.a - st.b - st.c) ^^^ (st.c >>> right)
  let b := (st.b - st.c - a) ^^^ (a <<< left)
  let c := (st.c - a - b) ^^^ (b >>> right')
  ⟨a, b, c⟩

def jhashMix (st : JenkinsState) : JenkinsState :=
  mixLine 3 10 15 (mixLine 12 16 5 (mixLine 13 8 13 st))

def jenkinsWord (k0 k1 k2 k3 : UInt8) : UInt32 :=
  k0.toUInt32 + (k1.toUInt32 <<< 8) + (k2.toUInt32 <<< 16) + (k3.toUInt32 <<< 24)

/-- A byte that the fall-through of the `switch` adds if the key has it. -/
def jenkinsByte (k : List UInt8) (index : Nat) : UInt8 := k.getD index 0

/-- The loop of `jenkins_hash` over whole blocks and its `switch` over what is
left; the lowest byte of `c` is kept for the length. -/
def jenkinsAbsorb (length : UInt32) (st : JenkinsState) : List UInt8 → JenkinsState
  | k0 :: k1 :: k2 :: k3 :: k4 :: k5 :: k6 :: k7 :: k8 :: k9 :: k10 :: k11 ::
      rest =>
      jenkinsAbsorb length
        (jhashMix
          ⟨st.a + jenkinsWord k0 k1 k2 k3, st.b + jenkinsWord k4 k5 k6 k7,
            st.c + jenkinsWord k8 k9 k10 k11⟩)
        rest
  | rest =>
    let byte := jenkinsByte rest
    jhashMix
      ⟨st.a + jenkinsWord (byte 0) (byte 1) (byte 2) (byte 3),
        st.b + jenkinsWord (byte 4) (byte 5) (byte 6) (byte 7),
        st.c + length + jenkinsWord 0 (byte 8) (byte 9) (byte 10)⟩

def jenkinsHash (k : List UInt8) : UInt32 :=
  (jenkinsAbsorb (UInt32.ofNat k.length) ⟨0x9e3779b9, 0x9e3779b9, 0⟩ k).c

def olsrIpHashing {ver : IpVersion} (address : IpAddr ver) : UInt32 :=
  jenkinsHash address.bytes &&& 127

end QosOlsr
