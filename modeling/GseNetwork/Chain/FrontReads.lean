import GseNetwork.Chain.Coherence

namespace GseNetwork.Chain

open GseNetwork.Core GseNetwork.Foundation
open ForkIndex (byNumber)
open BlockChain

variable {env : Env} {initial block : Block} {s t : BlockChain}

section Solo

end Solo

end GseNetwork.Chain
