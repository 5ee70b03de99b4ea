import Kv260Sigv.Rtl.Ed25519PointCore

/-!
# `ed25519_basepoint_table`

The first fifteen multiples of the base point, by selector.
-/

set_option autoImplicit false

namespace Kv260Sigv

namespace Ed25519BasepointTable

/-- The point of a selector; the others, with `valid` low, read as zeros. -/
def point (selector : BitVec 4) : ExtPoint :=
  match selector.toNat with
  | 1 =>
      { x := 0x216936d3cd6e53fec0a4e231fdd6dc5c692cc7609525a7b2c9562d608f25d51a
        y := 0x6666666666666666666666666666666666666666666666666666666666666658
        z := 1
        t := 0x67875f0fd78b766566ea4e8e64abe37d20f09f80775152f56dde8ab3a5b7dda3 }
  | 2 =>
      { x := 0x36ab384c9f5a046c3d043b7d1833e7ac080d8e4515d7a45f83c5a14e2843ce0e
        y := 0x2260cdf3092329c21da25ee8c9a21f5697390f51643851560e5f46ae6af8a3c9
        z := 1
        t := 0x2498a7850b2f68dc1de55f087303b4135d79acc9c1f72402b71a3f556d69b401 }
  | 3 =>
      { x := 0x67ae9c4a22928f491ff4ae743edac83a6343981981624886ac62485fd3f8e25c
        y := 0x1267b1d177ee69aba126a18e60269ef79f16ec176724030402c3684878f5b4d4
        z := 1
        t := 0x2a4d025cb1dd9510ebef3783adb915275c27358bfb16fc4acdf908fa78b3a41a }
  | 4 =>
      { x := 0x203da8db56cff1468325d4b87a3520f91a739ec193ce1547493aa657c4c9f870
        y := 0x47d0e827cb1595e1470eb88580d5716c4cf22832ea2f0ff0df38ab61ca32112f
        z := 1
        t := 0x22783cd8d873260c7214ba6ac67c29607195e31eb6dd07ca5f8f22f6728a1358 }
  | 5 =>
      { x := 0x49fda73eade3587bfcef7cf7d12da5de5c2819f93e1be1a591409cc0322ef233
        y := 0x5f4825b298feae6fe02c6e148992466631282eca89430b5d10d21f83d676c8ed
        z := 1
        t := 0x745c562c9c593d4c3160ea508736c7f9afb94e85000926bf641950bcf3e801d0 }
  | 6 =>
      { x := 0x4c9797ba7a45601c62aeacc0dd0a29bea1e599826c7b4427783a741a7dcbf23d
        y := 0x054de3fc2886d8a11db709a7fd4f7d77f9417c06944d6b60c1d27ad0f9497ef4
        z := 1
        t := 0x3c32efd109aa604f82855a994fe7dcc40baf92147c7dc89bc7ced6c8b44ef1d2 }
  | 7 =>
      { x := 0x14568685fcf4bd4ee9e3ee194b1d810783e809f3bbf1ce955855981af50e4107
        y := 0x31c563e32b47d52f87ce6468dd36ad41f0882b46f7abf23d12c4c4b59f4062b8
        z := 1
        t := 0x119e77b11d165e1b9be82dc589d5bab45294632a1e9aa4e410bd45565587ed1b }
  | 8 =>
      { x := 0x6742e15f97d771b642862d5cf84ecf93eb3ac67b80698b993b87fdbc08a584c8
        y := 0x21d30600c9e573796ead6f09668af38f81783cfc621ee4931e2f5ba9fc37b9b4
        z := 1
        t := 0x2c4f59ecedf7eae11608c29b38b3d99345f0ce6d344c2bf56fbef41ad41a51bf }
  | 9 =>
      { x := 0x357cc970c80071651bf336e06f9422b886d80e5c2e4e0294d3e023065185715c
        y := 0x7f3d23c2c2dd0df4b2befce956f2d2fd1f789013236e4430c74e44845522f1c0
        z := 1
        t := 0x5c70fc48ea87cbf9db6676adf747cd7417b3d4a0f770327e5c3b386f88b2f465 }
  | 10 =>
      { x := 0x602c797e30ca6d754470b60ed2bc8677207e8e4ed836f81444951f224877f94f
        y := 0x637ffcaa7a1b2477c8e44d54c898bfcf2576a6853de0e843ba8874b06ae87b2c
        z := 1
        t := 0x36e05f326673529288bfd10309b4577f74f5a9f4b3b9252543e74c95035bc63e }
  | 11 =>
      { x := 0x14e528b1154be417b6cf078dd6712438d381a5b2c593d552ff2fd2c1207cf3cb
        y := 0x2d9082313f21ab975a6f7ce340ff0fce1258591c3c9c58d4308f2dc36a033713
        z := 1
        t := 0x5ae6a565800f28a239caa6bef216adbf590001dde18fc837eb85cf2edb5beed4 }
  | 12 =>
      { x := 0x4719e17e016e5d355ecf70e00ca249db3295bf2385c13b42ae62fe6678f0902d
        y := 0x4070ce608bce8022e71d6c4e637825b856487eb45273966733d281dc2e2de4f9
        z := 1
        t := 0x2b344e203a4858a12067d3a831cd006f0f1ef0c48c5b13abd5ecc3128e4b1ccb }
  | 13 =>
      { x := 0x107427e0d5f366ccdb33adf0282d304f8843e3e88d22b7b83780e073b7c05fed
        y := 0x12dbb00ded538b7478466022d2da89b83740cfb2289a272387efe1aeea401f80
        z := 1
        t := 0x412806b917be6460c5c0dd61cd5623385b14aa51eb2e8efc522cdccde8de2f53 }
  | 14 =>
      { x := 0x205f3b42f5884aaf048c7a895ccabb15d8dee6d83e39832aa38e7353b58515b9
        y := 0x4e50256f50c4cb8115bad17acbb702bfa74898e819b6265c8369fd98899c2839
        z := 1
        t := 0x66432d1463a87e0f8ea60abf3cbfe47971e7437fe66445e089133d2ca271c2e0 }
  | 15 =>
      { x := 0x4f162deaec2ec435dc5ac6f95d20419ed9631374770189cb90617f3e66a18dc1
        y := 0x12cbfb2d04ff22f55162f70164d29331ace5af18a19a9aa1946d4cc4ad2e5cdf
        z := 1
        t := 0x5e33f00e36b77491ab24fd2241760de2fa63b68fe40ae5f5140d7f335c92bf29 }
  | _ => ⟨0, 0, 0, 0⟩

end Ed25519BasepointTable

end Kv260Sigv
